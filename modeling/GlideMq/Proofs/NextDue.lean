import GlideMq.Model.Add
import GlideMq.Model.Admin
import GlideMq.Model.Promote
import Mathlib.Order.Bounds.Basic

/-!
# The next wake-up

`nextDue` looks at the first member of the scheduled set and at the first group that is paused. The
scheduled set is in order of priority first, so another priority may be due before its first member.
-/

namespace GlideMq

open Redis

/-- When there is something to do: the due time of a scheduled member, the end of a pause. -/
def Queue.wakeTimes (s : Queue) : Set Int :=
  {t | (∃ p ∈ s.scheduled.items, t = p.2 % priorityShift) ∨ ∃ q ∈ s.ratelimited.items, t = q.2}

/-- The scheduler wakes up first when there is something to do first, and not at all if there never
is. -/
structure WakesFirst (s : Queue) : Prop where
  least : ∀ t, nextDueAt s = some t ↔ IsLeast s.wakeTimes t
  never : nextDueAt s = none ↔ s.scheduled.items = [] ∧ s.ratelimited.items = []

/-- No scheduled member is due before the first one and before every pause ends. -/
def Queue.FirstIsDue (s : Queue) : Prop :=
  ∀ p ∈ s.scheduled.items,
    (∃ first ∈ s.scheduled.first?, first.2 % priorityShift ≤ p.2 % priorityShift) ∨
      ∃ q ∈ s.ratelimited.items, q.2 ≤ p.2 % priorityShift

section

variable {s : Queue} {t : Int}

theorem due_nonneg (x : Int) : 0 ≤ x % priorityShift := Int.emod_nonneg x (by decide)

/-- One spec for the four cases: the reply is the time of the first member or of the first pause,
whichever comes first. -/
theorem nextDueAt_spec (htimes : ∀ q ∈ s.ratelimited.items, 0 ≤ q.2) :
    match nextDueAt s with
    | none => s.scheduled.first? = none ∧ s.ratelimited.first? = none
    | some t =>
      ((∃ p ∈ s.scheduled.first?, t = p.2 % priorityShift) ∨ ∃ q ∈ s.ratelimited.first?, t = q.2) ∧
        (∀ p ∈ s.scheduled.first?, t ≤ p.2 % priorityShift) ∧ ∀ q ∈ s.ratelimited.first?, t ≤ q.2 := by
  unfold nextDueAt nextDue
  cases hmember : s.scheduled.first? with
  | none =>
    cases hpause : s.ratelimited.first? with
    | none => simp
    | some q =>
      have hq := htimes q (List.mem_of_head? hpause)
      simp [not_lt.mpr hq]
  | some p =>
    have hp := due_nonneg p.2
    cases hpause : s.ratelimited.first? with
    | none => simp [not_lt.mpr hp]
    | some q =>
      have hq := htimes q (List.mem_of_head? hpause)
      by_cases hlt : q.2 < p.2 % priorityShift
      · simp [hlt, not_lt.mpr hq, hlt.le]
      · simp [hlt, not_lt.mpr hp, not_lt.mp hlt]

theorem nextDueAt_mem (htimes : ∀ q ∈ s.ratelimited.items, 0 ≤ q.2) (h : nextDueAt s = some t) :
    t ∈ s.wakeTimes := by
  have hspec := nextDueAt_spec htimes
  rw [h] at hspec
  rcases hspec.1 with ⟨p, hp, rfl⟩ | ⟨q, hq, rfl⟩
  · exact .inl ⟨p, List.mem_of_head? hp, rfl⟩
  · exact .inr ⟨q, List.mem_of_head? hq, rfl⟩

theorem nextDueAt_le (htimes : ∀ q ∈ s.ratelimited.items, 0 ≤ q.2) (hdue : s.FirstIsDue)
    (h : nextDueAt s = some t) : t ∈ lowerBounds s.wakeTimes := by
  have hspec := nextDueAt_spec htimes
  rw [h] at hspec
  obtain ⟨-, hmember, hpause⟩ := hspec
  have hpauses (q : GroupKey × Int) (hq : q ∈ s.ratelimited.items) : t ≤ q.2 := by
    cases hfirst : s.ratelimited.first? with
    | none => simp [SortedSet.first?_eq_none.mp hfirst] at hq
    | some r => exact (hpause r hfirst).trans (SortedSet.score_first?_le hfirst hq)
  rintro u (⟨p, hp, rfl⟩ | ⟨q, hq, rfl⟩)
  · rcases hdue p hp with ⟨first, hfirst, hle⟩ | ⟨q, hq, hle⟩
    · exact (hmember first hfirst).trans hle
    · exact (hpauses q hq).trans hle
  · exact hpauses q hq

theorem nextDueAt_eq_none (htimes : ∀ q ∈ s.ratelimited.items, 0 ≤ q.2) :
    nextDueAt s = none ↔ s.scheduled.items = [] ∧ s.ratelimited.items = [] := by
  have hspec := nextDueAt_spec htimes
  constructor
  · intro h
    rw [h] at hspec
    exact ⟨SortedSet.first?_eq_none.mp hspec.1, SortedSet.first?_eq_none.mp hspec.2⟩
  · rintro ⟨hscheduled, hlimited⟩
    cases h : nextDueAt s with
    | none => rfl
    | some t =>
      rcases nextDueAt_mem htimes h with ⟨p, hp, -⟩ | ⟨q, hq, -⟩
      · simp [hscheduled] at hp
      · simp [hlimited] at hq

/-- A scheduler that sleeps until the reply is awake when a scheduled member is due. -/
theorem nextDue_in_time (htimes : ∀ q ∈ s.ratelimited.items, 0 ≤ q.2) (hdue : s.FirstIsDue)
    {p : String × Int} (hp : p ∈ s.scheduled.items) : ∃ t ∈ nextDueAt s, t ≤ p.2 % priorityShift := by
  cases h : nextDueAt s with
  | none =>
    have hempty := ((nextDueAt_eq_none htimes).mp h).1
    simp [hempty] at hp
  | some t => exact ⟨t, rfl, nextDueAt_le htimes hdue h (.inl ⟨p, hp, rfl⟩)⟩

end

/-- Two delayed jobs, the later one with the lower priority number. -/
def twoPriorities : Queue :=
  let s := (addJob { name := "q" } { timestamp := 0, serverNow := 0, delay := 1000 }).1
  (addJob s { timestamp := 0, serverNow := 0, delay := 10, priority := 1 }).1

/-- Three delayed jobs of three priorities, and a group that is paused until 400. -/
def threePriorities : Queue :=
  let s := (addJob { name := "q" } { timestamp := 0, serverNow := 0, delay := 500 }).1
  let s := (addJob s { timestamp := 0, serverNow := 0, delay := 450, priority := 1 }).1
  let s := (addJob s { timestamp := 0, serverNow := 0, delay := 800, priority := 2 }).1
  (rateLimitGroupExternal s "k" 300 100 false).1

end GlideMq
