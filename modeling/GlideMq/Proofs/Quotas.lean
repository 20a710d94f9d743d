import GlideMq.Model.Calls
import Mathlib.Tactic.Linarith

/-!
# Quotas

A group's bucket and its rate window. Most of what the functions do leaves them alone or refills
the bucket, and a second refill at the same time does nothing.
-/

namespace GlideMq

open Queue

/-- The bucket and the window of a group, with their settings. -/
def GroupHash.quota (g : GroupHash) : GroupHash :=
  { g with maxConcurrency := 0, active := 0, nextSeq := 0, skip := [] }

@[simp] theorem quota_quota (g : GroupHash) : g.quota.quota = g.quota := rfl

theorem quota_tbRefill (g : GroupHash) (x : Int) : (tbRefill g x).1.quota = (tbRefill g.quota x).1 := by
  unfold tbRefill GroupHash.quota
  grind

theorem tbRefill_idem (g : GroupHash) (x : Int) :
    (tbRefill (tbRefill g x).1 x).1 = (tbRefill g x).1 := by
  unfold tbRefill
  grind

/-- The bucket may have been refilled at the time `x`. -/
def Refilled (x : Int) (g g' : GroupHash) : Prop :=
  g'.quota = g.quota ∨ g'.quota = (tbRefill g.quota x).1

section

variable {x : Int} {g g' g'' : GroupHash}

theorem Refilled.refl (g : GroupHash) : Refilled x g g := .inl rfl

theorem Refilled.trans (h : Refilled x g g') (h' : Refilled x g' g'') : Refilled x g g'' := by
  rcases h with h | h <;> rcases h' with h' | h'
  · exact .inl (h'.trans h)
  · exact .inr (by rw [h', h])
  · exact .inr (h'.trans h)
  · exact .inr (by rw [h', h, tbRefill_idem])

theorem refilled_tbRefill (g : GroupHash) : Refilled x g (tbRefill g x).1 := .inr (quota_tbRefill g x)

end

end GlideMq
