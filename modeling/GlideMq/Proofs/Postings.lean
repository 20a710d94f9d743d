import GlideMq.Proofs.Ledger

/-!
# What a call posts to a group

A call that adds no job posts at most one charge or credit to a group.
-/

namespace GlideMq

open Queue Redis

/-- The writes of `undoCharge`. -/
def GroupHash.credit (g : GroupHash) (cost : Int) : GroupHash :=
  let g :=
    if 0 < g.tbCapacity then
      { g with tbTokens := some (min g.tbCapacity (g.tbTokens.getD 0 + cost)) }
    else g
  if 0 < g.rateCount then { g with rateCount := g.rateCount - 1 } else g

/-- The writes of one call, at the server's clock `x` and the worker's clock `now`. -/
inductive QuotaStep (x now : Int) (g g' : GroupHash) : Option Posting → Prop
  | quiet (h : Refilled x g g') : QuotaStep x now g g' none
  | charge {g₁ : GroupHash} {cost : Int} (h : Refilled x g g₁) (hfull : (tbRefill g₁ x).1 = g₁)
      (hadmits : g₁.Admits cost now) (h' : Refilled x (g₁.charge cost now) g') :
      QuotaStep x now g g' (some (.charge cost))
  | credit {cost : Int} (h : g'.quota = (g.credit cost).quota) :
      QuotaStep x now g g' (some (.credit cost))

section

variable {x now : Int} {s t u v : Queue} {J : JobId} {gk : GroupKey}

theorem Refilled.of_quota {g g' : GroupHash} (h : g'.quota = g.quota) : Refilled x g g' := .inl h

theorem Refilled.charge {g g' : GroupHash} (h : g'.quota = g.quota) (cost now : Int) :
    (g'.charge cost now).quota = (g.charge cost now).quota := by
  rw [quota_charge, h, ← quota_charge]

theorem Starts.quota_step {charge : Option GroupKey} (hidle : Idle x s u)
    (h : Starts x now u v J charge) (hrest : Idle x v t) (gk : GroupKey) :
    QuotaStep x now (s.groups gk) (t.groups gk)
      (if charge = some gk then some (.charge ((u.job J).cost.getD 1000)) else none) := by
  have hq := h.quotas gk
  by_cases hgk : charge = some gk
  · rw [if_pos hgk] at hq ⊢
    refine .charge (hidle.quotas gk) (h.refilled gk hgk) (h.admits gk hgk) ?_
    exact Refilled.trans (.inl hq) (hrest.quotas gk)
  · rw [if_neg hgk] at hq ⊢
    exact .quiet ((hidle.quotas gk).trans (Refilled.trans (.inl hq) (hrest.quotas gk)))

theorem moveToActive_quota_step (s : Queue) (a : MoveArgs) (gk : GroupKey)
    (hfirst : (s.job a.jobId).groupKey = some gk → ¬ isReturning s gk a.jobId) :
    QuotaStep a.serverNow a.timestamp (s.groups gk) ((moveToActive s a).1.groups gk)
      ((Call.moveToActive a).posting s gk) := by
  have hattempt := moveToActive_attempt s a
  have hchain (e : Option Nat) : (Call.moveToActive a).tookLifo s e = false := by
    simp [Call.tookLifo, Call.chains]
  unfold Call.posting Call.activation
  simp only [hchain]
  generalize (moveToActive s a).2 = result at *
  cases hfields : result.fields with
  | none =>
    rw [hfields] at hattempt
    cases hattempt with
    | idle h => exact .quiet (h.quotas gk)
  | some fields =>
    rw [hfields] at hattempt
    generalize ht : (moveToActive s a).1 = t at *
    generalize hf : fields = f at *
    cases hattempt with
    | started hidle hkey h =>
      have hstep := h.quota_step hidle (.refl _) gk
      simp only [Option.map_some, Bool.false_eq_true, not_false_eq_true, and_true, readBefore, h.group,
        h.cost, hkey]
      exact hstep
    | @returned k hkey hreturns hactive hself hothers hquotas =>
      -- such a job is charged to its own group only
      have hne : gk ≠ k := by
        rintro rfl
        exact hfirst hkey hreturns
      simp only [Option.map_some, Bool.false_eq_true, not_false_eq_true, and_true, readBefore, hself.1,
        Option.some.injEq, Ne.symm hne, if_false]
      exact .quiet (hquotas gk hne)

theorem posting_of_chains {c : Call} (hc : c.chains) : c.posting s gk =
    match c.activation s with
    | some (_, e, fields) =>
      if fields.groupKey = some gk ∧ ¬ c.tookLifo s e then some (.charge (fields.cost.getD 1000))
      else none
    | none => none := by
  unfold Call.posting
  split
  · cases hc
  · rfl

theorem FetchEnd.quota_step {next : ChainNext} (c : Call) (hc : c.chains)
    (ht : c.run s = t) (hact : c.activation s = next.activation) (h : FetchEnd x now s t next)
    (gk : GroupKey) :
    QuotaStep x now (s.groups gk) (t.groups gk) (c.posting s gk) := by
  rw [posting_of_chains hc, hact]
  cases h with
  | @started u charge J e fields hidle h hfields hkey =>
    have hstep := h.quota_step hidle (.refl t) gk
    have hlifo : charge = some gk ↔ fields.groupKey = some gk ∧ ¬ c.tookLifo s e := by
      rcases hkey with ⟨rfl, hsame⟩ | ⟨rfl, he, hshort⟩
      · have hnot : c.tookLifo s e = false := by
          by_contra hcon
          simp only [Call.tookLifo, Bool.not_eq_false, decide_eq_true_eq, ht] at hcon
          rw [hsame hcon.2.1] at hcon
          exact lt_irrefl _ hcon.2.2
        simp [hnot]
      · have htook : c.tookLifo s e = true := by
          simp [Call.tookLifo, hc, he, ht, hshort]
        simp [htook]
    rw [hfields] at hlifo ⊢
    simpa only [ChainNext.activation, hlifo, h.cost] using hstep
  | idle h hnext =>
    have hnone : next.activation = none := by
      cases next with
      | hash J e fields => exact absurd rfl (hnext J e fields)
      | _ => rfl
    rw [hnone]
    exact .quiet (h.quotas gk)

theorem completeAndFetchNext_quota_step (s : Queue) (a : CompleteNextArgs) (gk : GroupKey) :
    QuotaStep a.serverNow a.timestamp (s.groups gk) ((completeAndFetchNext s a).1.groups gk)
      ((Call.completeAndFetchNext a).posting s gk) := by
  rcases completeAndFetchNext_end s a with ⟨hnone, hs⟩ | ⟨reply, hreply, hend⟩
  · have hpost : (Call.completeAndFetchNext a).posting s gk = none := by
      simp [Call.posting, Call.activation, hnone]
    rw [hpost, hs]
    exact .quiet (.refl _)
  · refine FetchEnd.quota_step (.completeAndFetchNext a) rfl rfl ?_ hend gk
    simp [Call.activation, hreply]

theorem failAndFetchNext_quota_step (s : Queue) (a : FailArgs) (consumer : String) (gk : GroupKey) :
    QuotaStep a.serverNow a.timestamp (s.groups gk) ((failAndFetchNext s a consumer).1.groups gk)
      ((Call.failAndFetchNext a consumer).posting s gk) :=
  FetchEnd.quota_step (.failAndFetchNext a consumer) rfl rfl rfl (failAndFetchNext_end s a consumer)
    gk

/-! ## Giving back -/

theorem jobs_giveBack (s : Queue) (J : JobId) (group : Group) (e : Option Nat) :
    (giveBack s J group e).jobs = s.jobs := by
  unfold giveBack
  rw [jobs_settleListClaim, ackDel_jobs]

theorem groups_giveBack (s : Queue) (J : JobId) (group : Group) (e : Option Nat) :
    (giveBack s J group e).groups = s.groups := by
  unfold giveBack GlideMq.settleListClaim ackDel
  simp only [decrListActive_eq]
  split <;> cases e <;> rfl

theorem groups_requeue (s : Queue) (a : DeferArgs) : (requeue s a).groups = s.groups := by
  unfold requeue
  simp only
  repeat' split
  all_goals rfl

theorem jobs_requeue (s : Queue) (a : DeferArgs) : (requeue s a).jobs = s.jobs := by
  unfold requeue
  simp only
  repeat' split
  all_goals rfl

theorem groups_putBack (s : Queue) (a : DeferArgs) : (putBack s a).groups = s.groups :=
  (groups_requeue _ a).trans (groups_giveBack _ _ _ _)

theorem job_putBack (s : Queue) (a : DeferArgs) :
    (putBack s a).job a.jobId = { s.job a.jobId with state := some .waiting } := by
  unfold putBack setState Queue.job
  rw [hset_jobs, Function.update_self, jobs_requeue, jobs_giveBack]
  rfl

theorem quota_undoSlot (g : GroupHash) (j : Job) : (g.undoSlot j).quota = g.quota := by
  unfold GroupHash.undoSlot
  simp only
  split <;> rfl

theorem quota_credit (g : GroupHash) (cost : Int) : (g.credit cost).quota = g.quota.credit cost := by
  unfold GroupHash.credit GroupHash.quota
  grind

theorem deferActive_quota_step (s : Queue) (a : DeferArgs) (gk : GroupKey) :
    QuotaStep x now (s.groups gk) ((deferActive s a).1.groups gk)
      ((Call.deferActive a).posting s gk) := by
  rw [deferActive_eq]
  unfold Call.posting
  simp only
  by_cases hj : s.jobs a.jobId = none
  · simp only [hj, if_true, ne_eq, not_true_eq_false, false_and, and_false, if_false]
    rw [groups_giveBack]
    exact .quiet (.refl _)
  simp only [hj, if_false, ne_eq, not_false_eq_true, true_and]
  by_cases hundo : a.undoGroupClaim
  · simp only [hundo, if_true, true_and]
    unfold undoClaim
    simp only [job_putBack]
    cases hkey : (s.job a.jobId).groupKey with
    | none =>
      simp only [reduceCtorEq, if_false, groups_putBack]
      exact .quiet (.refl _)
    | some k =>
      simp only [hgroup_groups, groups_putBack, Option.some.injEq]
      by_cases hk : k = gk
      · subst hk
        simp only [if_true, Function.update_self]
        refine .credit ?_
        change (((s.groups k).undoSlot _).credit _).quota = _
        rw [quota_credit, quota_undoSlot, ← quota_credit]
      · rw [if_neg hk, Function.update_of_ne (Ne.symm hk)]
        exact .quiet (.refl _)
  · simp only [hundo, Bool.false_eq_true, if_false, false_and, groups_putBack]
    exact .quiet (.refl _)

end

end GlideMq
