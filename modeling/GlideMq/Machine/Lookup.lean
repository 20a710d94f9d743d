import Mathlib.Data.List.Nodup

/-!
# Lists of keys with values

A list in which each key stands once is a map.
-/

namespace Machine

variable {α β γ : Type*} [BEq α] [LawfulBEq α]

theorem lookup_of_mem {l : List (α × β)} (h : (l.map (·.1)).Nodup) {k : α} {b : β} (hmem : (k, b) ∈ l) :
    l.lookup k = some b := by
  obtain ⟨s, t, rfl⟩ := List.append_of_mem hmem
  rw [List.lookup_eq_some_iff]
  refine ⟨s, t, rfl, fun p hp => ?_⟩
  rw [List.map_append, List.map_cons] at h
  have hne : p.1 ≠ k := (List.nodup_append.mp h).2.2 _ (List.mem_map_of_mem hp) _ (List.mem_cons_self ..)
  simpa using hne.symm

theorem isSome_lookup {l : List (α × β)} {k : α} : (l.lookup k).isSome ↔ k ∈ l.map (·.1) := by
  rw [List.lookup_isSome_iff, List.mem_map]
  apply exists_congr
  intro p
  rw [beq_iff_eq, eq_comm]

theorem lookup_filter_ne {α : Type*} [DecidableEq α] (l : List (α × β)) (k a : α) :
    (l.filter fun p => p.1 ≠ k).lookup a = if a = k then none else l.lookup a := by
  induction l with
  | nil => simp
  | cons p l ih =>
    by_cases hp : p.1 = k
    · rw [List.filter_cons_of_neg (by simpa using hp), ih]
      by_cases ha : a = k
      · rw [if_pos ha, if_pos ha]
      · have hne : (a == p.1) = false := beq_false_of_ne (by rwa [hp])
        rw [if_neg ha, if_neg ha, List.lookup_cons, hne]
    · rw [List.filter_cons_of_pos (by simpa using hp), List.lookup_cons, List.lookup_cons, ih]
      cases ha : a == p.1 with
      | true =>
        have hne : a ≠ k := by rwa [beq_iff_eq.mp ha]
        simp only [if_neg hne]
      | false => rfl

omit [BEq α] [LawfulBEq α] in
theorem keys_filterMap_sublist (key : γ → α) (value : γ → Option β) (l : List γ) :
    ((l.filterMap fun x => (value x).map fun b => (key x, b)).map (·.1)).Sublist (l.map key) := by
  induction l with
  | nil => exact List.Sublist.refl _
  | cons x l ih =>
    cases hx : value x with
    | none => simpa [hx] using ih.cons _
    | some b => simpa [hx] using ih

theorem lookup_filterMap {key : γ → α} {value : γ → Option β} {l : List γ} (h : (l.map key).Nodup) {x : γ}
    (hx : x ∈ l) : (l.filterMap fun x => (value x).map fun b => (key x, b)).lookup (key x) = value x := by
  cases hvalue : value x with
  | some b =>
    apply lookup_of_mem (h.sublist (keys_filterMap_sublist key value l))
    exact List.mem_filterMap.mpr ⟨x, hx, by simp [hvalue]⟩
  | none =>
    rw [List.lookup_eq_none_iff]
    intro p hp
    obtain ⟨y, hy, hpy⟩ := List.mem_filterMap.mp hp
    obtain ⟨b, hb, rfl⟩ := Option.map_eq_some_iff.mp hpy
    have hne : key x ≠ key y := by
      intro heq
      have hxy := List.inj_on_of_nodup_map h hx hy heq
      rw [hxy, hb] at hvalue
      cases hvalue
    simpa using hne

end Machine
