import GlideMq.Proofs.FreshIds

/-!
# Deduplicated adds that add nothing

A debounced add takes the waiting job's place before it takes an id. Where the id is in use it
leaves the queue without either.
-/

namespace GlideMq

open Queue

/-- The add is to replace `J`, the job that holds the dedup id and still waits for its time or its
turn. -/
structure Debounces (s : Queue) (a : DedupArgs) (J : JobId) : Prop where
  mode : a.mode = .debounce
  entry : ∃ storedTs, s.dedup a.dedupId = some (J, storedTs)
  waits : s.stateOf J = some .delayed ∨ s.stateOf J = some .prioritized

theorem dedupDecision_eq_replace {s : Queue} {a : DedupArgs} {J : JobId}
    (h : dedupDecision s a = .replace J) : Debounces s a J := by
  unfold dedupDecision at h
  cases hentry : s.dedup a.dedupId with
  | none =>
    rw [hentry] at h
    cases h
  | some entry =>
    obtain ⟨K, storedTs⟩ := entry
    rw [hentry] at h
    simp only at h
    cases hmode : a.mode with
    | simple =>
      rw [hmode] at h
      simp only at h
      split at h <;> cases h
    | throttle =>
      rw [hmode] at h
      simp only at h
      split at h <;> cases h
    | debounce =>
      rw [hmode] at h
      simp only at h
      split at h
      · rename_i hwaits
        cases h
        exact ⟨hmode, ⟨storedTs, hentry⟩, hwaits⟩
      · split at h <;> cases h

theorem Debounces.decision {s : Queue} {a : DedupArgs} {J : JobId} (h : Debounces s a J) :
    dedupDecision s a = .replace J := by
  obtain ⟨hmode, ⟨storedTs, hentry⟩, hwaits⟩ := h
  unfold dedupDecision
  rw [hentry, hmode]
  simp only
  rw [if_pos hwaits]

/-- The queue without the debounced job, with its parents told. -/
def withoutReplaced (s : Queue) (J : JobId) (timestamp serverNow : Int) : Queue :=
  let r := removeReplaced s J timestamp serverNow
  (resolveRemovedChildParents r.1 J r.2).1

theorem withoutReplaced_jobs_none (s : Queue) (J : JobId) (t t' : Int) (K : JobId) :
    (withoutReplaced s J t t').jobs K = none ↔ K = J ∨ s.jobs K = none := by
  unfold withoutReplaced
  rw [parentFrame_jobs_none (parentFrame_resolveRemovedChildParents _ _ _)]
  exact removeReplaced_jobs_none s J t t' K

theorem withoutReplaced_idKey (s : Queue) (J : JobId) (t t' : Int) :
    (withoutReplaced s J t t').idKey = s.idKey := by
  unfold withoutReplaced
  rw [resolveRemovedChildParents_idKey, removeReplaced_idKey]

theorem withoutReplaced_dedup (s : Queue) (J : JobId) (t t' : Int) :
    (withoutReplaced s J t t').dedup = s.dedup := by
  obtain ⟨u, hu, heq⟩ := frame_removeReplaced s J t t'
  have hparents : (withoutReplaced s J t t').parentFrame = (removeReplaced s J t t').1.parentFrame :=
    parentFrame_resolveRemovedChildParents _ J _
  have hdedup (q : Queue) : q.parentFrame.dedup = q.dedup := rfl
  calc (withoutReplaced s J t t').dedup
      = (removeReplaced s J t t').1.dedup := by rw [← hdedup, hparents]; rfl
    _ = u.dedup := by rw [heq]; rfl
    _ = u.frame.dedup := rfl
    _ = s.dedup := by rw [hu]; rfl

theorem allocateId_rejected {s : Queue} {c : Option JobId}
    (h : ∀ J, (allocateId s c).2 ≠ .added J) : (allocateId s c).1 = s := by
  unfold allocateId at h ⊢
  cases c with
  | some J =>
    by_cases hfree : s.jobs J = none
    · exact absurd (by simp [hfree]) (h J)
    · simp only [if_neg hfree]
  | none =>
    cases hincr : incrId s with
    | none => rfl
    | some r => exact absurd (by simp [hincr]) (h r.2)

theorem allocateId_reply {s : Queue} {c : Option JobId} (h : ∀ J, (allocateId s c).2 ≠ .added J) :
    (allocateId s c).2 = .duplicate ∨ (allocateId s c).2 = .error := by
  unfold allocateId at h ⊢
  cases c with
  | some J =>
    by_cases hfree : s.jobs J = none
    · exact absurd (by simp [hfree]) (h J)
    · exact Or.inl (by simp [hfree])
  | none =>
    cases hincr : incrId s with
    | none => exact Or.inr rfl
    | some r => exact absurd (by simp [hincr]) (h r.2)

theorem dedupAdd_rejected {s : Queue} {a : DedupArgs} {replaced : Option (JobId × ChildParents)}
    (h : ∀ J, (dedupAdd s a replaced).2 ≠ .added J) :
    (replaced = none → (dedupAdd s a replaced).1 = s) ∧
      ∀ old edges, replaced = some (old, edges) → (dedupAdd s a replaced).2 = .duplicate →
        (dedupAdd s a replaced).1 = (resolveRemovedChildParents s old edges).1 := by
  -- An add that takes no id does nothing but tell the parents of the job it was to replace.
  rw [dedupAdd_reply] at h ⊢
  have hsame := allocateId_rejected h
  unfold dedupAdd
  rcases hr : allocateId s a.customJobId with ⟨t, r⟩
  rw [hr] at h hsame
  obtain rfl : t = s := hsame
  cases r with
  | added J => exact absurd rfl (h J)
  | duplicate =>
    constructor
    · rintro rfl
      rfl
    · rintro old edges rfl _
      rfl
  | _ => exact ⟨fun _ => rfl, fun _ _ _ hdup => absurd hdup nofun⟩

/-- What an add that adds nothing leaves. -/
structure RejectedAdd (s : Queue) (a : DedupArgs) (r : Queue × AddResult) : Prop where
  /-- Nothing changes where no job is debounced. -/
  kept : (∀ J, ¬ Debounces s a J) → r.1 = s
  /-- Nothing changes where the add is turned away before its mode is looked at. -/
  turned : r.2 ≠ .duplicate → r.2 ≠ .error → r.1 = s
  invalid : maxPriority < a.priority → r.1 = s
  /-- Else the debounced job is gone, and no other one. -/
  removed : ∀ J, Debounces s a J → r.2 = .duplicate →
    r.1 = withoutReplaced s J a.timestamp a.serverNow ∧ r.1.dedup = s.dedup ∧ r.1.idKey = s.idKey ∧
      ∀ K, r.1.jobs K = none ↔ K = J ∨ s.jobs K = none

theorem dedup_rejected (s : Queue) (a : DedupArgs) (h : ∀ J, (dedup s a).2 ≠ .added J) :
    RejectedAdd s a (dedup s a) := by
  have hself {r : AddResult} (hr : r ≠ .duplicate) : RejectedAdd s a (s, r) :=
    ⟨fun _ => rfl, fun _ _ => rfl, fun _ => rfl, fun _ _ hdup => absurd hdup hr⟩
  unfold dedup at h ⊢
  split
  · exact hself nofun
  split
  · exact hself nofun
  rename_i hpriority hcost
  rw [if_neg hpriority, if_neg hcost] at h
  cases hdecision : dedupDecision s a with
  | skip => exact hself nofun
  | add =>
    rw [hdecision] at h
    have hsame := (dedupAdd_rejected h).1 rfl
    exact ⟨fun _ => hsame, fun _ _ => hsame, fun _ => hsame, fun J hJ =>
      absurd (hdecision.symm.trans hJ.decision) nofun⟩
  | replace J =>
    rw [hdecision] at h
    simp only at h ⊢
    have hdup := (dedupAdd_rejected h).2 J _ rfl
    refine ⟨fun hnone => absurd (dedupDecision_eq_replace hdecision) (hnone J), fun hnotdup hnoterror => ?_,
      fun hinvalid => absurd hinvalid hpriority, fun K hK hreply => ?_⟩
    · rw [dedupAdd_reply] at h hnotdup hnoterror
      rcases allocateId_reply h with hreply | hreply
      · exact absurd hreply hnotdup
      · exact absurd hreply hnoterror
    · obtain rfl : J = K := by simpa using hdecision.symm.trans hK.decision
      have hsame : (dedupAdd (removeReplaced s J a.timestamp a.serverNow).1 a _).1 =
          withoutReplaced s J a.timestamp a.serverNow := hdup hreply
      rw [hsame]
      exact ⟨rfl, withoutReplaced_dedup s J _ _, withoutReplaced_idKey s J _ _,
        withoutReplaced_jobs_none s J _ _⟩

/-- A delayed job `x` holds the dedup id, and `y` exists as well. -/
def withDebounced : Queue :=
  (dedup (addJob { name := "q" } { timestamp := 1, serverNow := 1, customJobId := some "y" }).1
    { dedupId := "d"
      mode := .debounce
      timestamp := 2
      serverNow := 2
      delay := 50
      customJobId := some "x" }).1

/-- A debounced add that asks for the id `y`. -/
def debounceAsTaken : DedupArgs :=
  { dedupId := "d", mode := .debounce, timestamp := 3, serverNow := 3, customJobId := some "y" }

/-- The add is a duplicate, and the job it was to replace is gone. -/
theorem dedup_rejected_loses_job :
    (dedup withDebounced debounceAsTaken).2 = .duplicate ∧
      (dedup withDebounced debounceAsTaken).1.jobs "x" ≠ withDebounced.jobs "x" := by
  decide

theorem dedup_rejected_as_taken :
    RejectedAdd withDebounced debounceAsTaken (dedup withDebounced debounceAsTaken) :=
  dedup_rejected withDebounced debounceAsTaken fun J hJ => by
    have hdup : (dedup withDebounced debounceAsTaken).2 = .duplicate := by decide
    rw [hdup] at hJ
    cases hJ

end GlideMq
