import Mathlib.Data.List.Sort
import Mathlib.Data.List.Basic
import Mathlib.Order.Basic

/-!
# Sorted sets

A sorted set holds members with integer scores, ordered by score and then by member.
The order and the uniqueness of members are fields, so every operation keeps them.
-/

namespace Redis

variable {α : Type} [LinearOrder α]

/-- `ZRANGE` order: by score, then by member. -/
def before (a b : α × Int) : Prop := a.2 < b.2 ∨ (a.2 = b.2 ∧ a.1 ≤ b.1)

instance : DecidableRel (@before α _) := fun a b => by unfold before; infer_instance

instance : Std.Total (@before α _) where
  total a b := by
    unfold before
    rcases lt_trichotomy a.2 b.2 with h | h | h
    · exact Or.inl (Or.inl h)
    · rcases le_total a.1 b.1 with h' | h'
      · exact Or.inl (Or.inr ⟨h, h'⟩)
      · exact Or.inr (Or.inr ⟨h.symm, h'⟩)
    · exact Or.inr (Or.inl h)

instance : IsTrans (α × Int) (@before α _) where
  trans a b c := by
    unfold before
    rintro (h | ⟨h, h'⟩) (k | ⟨k, k'⟩)
    · exact Or.inl (by omega)
    · exact Or.inl (by omega)
    · exact Or.inl (by omega)
    · exact Or.inr ⟨by omega, le_trans h' k'⟩

structure SortedSet (α : Type) [LinearOrder α] where
  items : List (α × Int)
  sorted : items.Pairwise before
  nodup : (items.map Prod.fst).Nodup

namespace SortedSet

def empty : SortedSet α := ⟨[], List.Pairwise.nil, List.nodup_nil⟩

instance : EmptyCollection (SortedSet α) := ⟨empty⟩
instance : Inhabited (SortedSet α) := ⟨∅⟩

def members (z : SortedSet α) : List α := z.items.map Prod.fst

instance : Membership α (SortedSet α) := ⟨fun z a => a ∈ z.members⟩

instance (a : α) (z : SortedSet α) : Decidable (a ∈ z) :=
  inferInstanceAs (Decidable (a ∈ z.members))

def score (z : SortedSet α) (a : α) : Option Int :=
  (z.items.find? (fun p => p.1 = a)).map Prod.snd

def card (z : SortedSet α) : Nat := z.items.length

/-- `ZREM`. -/
def rem (z : SortedSet α) (a : α) : SortedSet α where
  items := z.items.filter (fun p => p.1 ≠ a)
  sorted := z.sorted.sublist List.filter_sublist
  nodup := z.nodup.sublist (List.filter_sublist.map _)

theorem fst_ne_of_mem_rem {z : SortedSet α} {a : α} {p : α × Int} (h : p ∈ (z.rem a).items) :
    p.1 ≠ a := by
  simpa using (List.mem_filter.mp h).2

/-- `ZADD`: a member that is present gets the new score. -/
def add (z : SortedSet α) (a : α) (x : Int) : SortedSet α where
  items := List.orderedInsert before (a, x) (z.rem a).items
  sorted := (z.rem a).sorted.orderedInsert _ _
  nodup := by
    have hp := List.perm_orderedInsert before (a, x) (z.rem a).items
    refine ((hp.map Prod.fst).nodup_iff).mpr ?_
    simp only [List.map_cons, List.nodup_cons, List.mem_map, not_exists, not_and]
    exact ⟨fun p hp => fst_ne_of_mem_rem hp, (z.rem a).nodup⟩

/-- `ZREM` of several members. -/
def remAll (z : SortedSet α) (as : List α) : SortedSet α := as.foldl rem z

/-- The first members in order, `ZRANGE 0 (n - 1)`. -/
def take (z : SortedSet α) (n : Nat) : List α := z.members.take n

def first? (z : SortedSet α) : Option (α × Int) := z.items.head?

def last? (z : SortedSet α) : Option (α × Int) := z.items.getLast?

/-- Members with a score in `[lo, hi]`, in order, at most `limit` of them. -/
def rangeByScore (z : SortedSet α) (lo hi : Int) (limit : Nat) : List α :=
  ((z.items.filter (fun p => lo ≤ p.2 ∧ p.2 ≤ hi)).take limit).map Prod.fst

/-! ## Membership -/

@[simp] theorem mem_members {z : SortedSet α} {a : α} : a ∈ z.members ↔ a ∈ z := Iff.rfl

@[simp] theorem not_mem_empty (a : α) : ¬ a ∈ (∅ : SortedSet α) := List.not_mem_nil

theorem mem_iff {z : SortedSet α} {a : α} : a ∈ z ↔ ∃ x, (a, x) ∈ z.items := by
  rw [← mem_members, members, List.mem_map]
  constructor
  · rintro ⟨⟨b, x⟩, h, rfl⟩; exact ⟨x, h⟩
  · rintro ⟨x, h⟩; exact ⟨(a, x), h, rfl⟩

@[simp] theorem mem_rem {z : SortedSet α} {a b : α} : b ∈ z.rem a ↔ b ≠ a ∧ b ∈ z := by
  simp only [mem_iff, rem, List.mem_filter, decide_eq_true_eq]
  constructor
  · rintro ⟨x, h, hne⟩; exact ⟨hne, x, h⟩
  · rintro ⟨hne, x, h⟩; exact ⟨x, h, hne⟩

@[simp] theorem mem_add {z : SortedSet α} {a b : α} {x : Int} : b ∈ z.add a x ↔ b = a ∨ b ∈ z := by
  simp only [mem_iff, add, List.mem_orderedInsert, Prod.mk.injEq]
  constructor
  · rintro ⟨y, (⟨rfl, rfl⟩ | h)⟩
    · exact Or.inl rfl
    · exact Or.inr ⟨y, (List.mem_filter.mp h).1⟩
  · rintro (rfl | ⟨y, h⟩)
    · exact ⟨x, Or.inl ⟨rfl, rfl⟩⟩
    · by_cases hb : b = a
      · exact ⟨x, Or.inl ⟨hb, rfl⟩⟩
      · exact ⟨y, Or.inr (List.mem_filter.mpr ⟨h, by simpa using hb⟩)⟩

@[simp] theorem mem_remAll {z : SortedSet α} {as : List α} {b : α} :
    b ∈ z.remAll as ↔ b ∉ as ∧ b ∈ z := by
  induction as generalizing z with
  | nil => simp [remAll]
  | cons a as ih =>
    rw [remAll, List.foldl_cons, ← remAll, ih, mem_rem, List.mem_cons, not_or]
    tauto

theorem rem_rem_self (z : SortedSet α) (a : α) : (z.rem a).rem a = z.rem a := by
  simp [rem, List.filter_filter]

theorem add_rem_self (z : SortedSet α) (a : α) (x : Int) : (z.rem a).add a x = z.add a x := by
  simp only [add, rem_rem_self]

theorem mem_of_mem_take {z : SortedSet α} {n : Nat} {a : α} (h : a ∈ z.take n) : a ∈ z :=
  List.mem_of_mem_take h

theorem mem_of_mem_rangeByScore {z : SortedSet α} {lo hi : Int} {n : Nat} {a : α}
    (h : a ∈ z.rangeByScore lo hi n) : a ∈ z := by
  obtain ⟨p, hp, rfl⟩ := List.mem_map.mp h
  exact List.mem_map.mpr ⟨p, (List.mem_filter.mp (List.mem_of_mem_take hp)).1, rfl⟩

theorem mem_of_first? {z : SortedSet α} {a : α} {x : Int} (h : z.first? = some (a, x)) : a ∈ z :=
  mem_iff.mpr ⟨x, List.mem_of_head? h⟩

theorem score_first?_le {z : SortedSet α} {p r : α × Int} (hp : z.first? = some p) (hr : r ∈ z.items) :
    p.2 ≤ r.2 := by
  obtain ⟨tl, htl⟩ := List.head?_eq_some_iff.mp hp
  have hsorted := z.sorted
  rw [htl] at hsorted hr
  rcases List.mem_cons.mp hr with rfl | hr
  · exact le_rfl
  · rcases (List.pairwise_cons.mp hsorted).1 r hr with hlt | ⟨heq, -⟩
    · exact hlt.le
    · exact heq.le

theorem first?_eq_none {z : SortedSet α} : z.first? = none ↔ z.items = [] := List.head?_eq_none_iff

/-! ## Scores -/

theorem eq_of_mem_items {z : SortedSet α} {a : α} {x y : Int} (hx : (a, x) ∈ z.items)
    (hy : (a, y) ∈ z.items) : x = y := by
  have := List.inj_on_of_nodup_map z.nodup hx hy rfl
  exact congrArg Prod.snd this

theorem score_eq_some {z : SortedSet α} {a : α} {x : Int} :
    z.score a = some x ↔ (a, x) ∈ z.items := by
  simp only [score, Option.map_eq_some_iff]
  constructor
  · rintro ⟨⟨b, y⟩, h, rfl⟩
    have hb := List.find?_some h
    simp only [decide_eq_true_eq] at hb
    exact hb ▸ List.mem_of_find?_eq_some h
  · intro h
    obtain ⟨p, hp⟩ : ∃ p, z.items.find? (fun p => p.1 = a) = some p := by
      rw [← Option.isSome_iff_exists, List.find?_isSome]
      exact ⟨(a, x), h, by simp⟩
    obtain ⟨b, y⟩ := p
    have hb := List.find?_some hp
    simp only [decide_eq_true_eq] at hb
    refine ⟨_, hp, ?_⟩
    exact eq_of_mem_items (hb ▸ List.mem_of_find?_eq_some hp) h

theorem score_eq_none {z : SortedSet α} {a : α} : z.score a = none ↔ a ∉ z := by
  rw [← not_iff_not, not_not, ← ne_eq, Option.ne_none_iff_exists', mem_iff]
  exact exists_congr fun _ => score_eq_some

theorem score_ext {z w : SortedSet α} {a b : α}
    (h : ∀ x, (a, x) ∈ z.items ↔ (b, x) ∈ w.items) : z.score a = w.score b := by
  apply Option.ext
  intro x
  rw [score_eq_some, score_eq_some, h]

theorem score_rem (z : SortedSet α) (a b : α) :
    (z.rem a).score b = if b = a then none else z.score b := by
  split
  · rename_i h
    rw [score_eq_none]; simp [h]
  · rename_i h
    apply score_ext
    intro x
    simp [rem, h]

theorem score_add (z : SortedSet α) (a b : α) (x : Int) :
    (z.add a x).score b = if b = a then some x else z.score b := by
  split
  · rename_i h
    rw [score_eq_some, h]
    simp [add]
  · rename_i h
    apply score_ext
    intro y
    simp [add, rem, h]

/-! ## Counting -/

theorem nodup_members (z : SortedSet α) : z.members.Nodup := z.nodup

theorem members_rem (z : SortedSet α) (a : α) : (z.rem a).members = z.members.erase a := by
  rw [z.nodup_members.erase_eq_filter]
  unfold members rem
  rw [List.filter_map]
  congr 1
  apply List.filter_congr
  intro p _
  rw [Bool.eq_iff_iff]
  simp

theorem members_add (z : SortedSet α) (a : α) (x : Int) :
    (z.add a x).members.Perm (a :: z.members.erase a) := by
  rw [← members_rem]
  exact (List.perm_orderedInsert before (a, x) (z.rem a).items).map Prod.fst

theorem countP_members_rem {z : SortedSet α} {a : α} (ha : a ∈ z) (q : α → Bool) :
    (z.rem a).members.countP q + (if q a then 1 else 0) = z.members.countP q := by
  rw [members_rem, (List.perm_cons_erase ha).countP_eq q, List.countP_cons]

theorem countP_members_move {z : SortedSet α} {a : α} (ha : a ∈ z) (x : Int) (q : α → Bool) :
    (z.add a x).members.countP q = z.members.countP q := by
  rw [(members_add z a x).countP_eq q, ← (List.perm_cons_erase ha).countP_eq q]

theorem countP_members_add {z : SortedSet α} {a : α} (ha : a ∉ z) (x : Int) (q : α → Bool) :
    (z.add a x).members.countP q = z.members.countP q + if q a then 1 else 0 := by
  rw [(members_add z a x).countP_eq q, List.countP_cons, List.erase_of_not_mem ha]

end SortedSet

end Redis
