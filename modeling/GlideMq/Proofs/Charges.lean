import GlideMq.Proofs.IdleCalls

/-!
# Activations and what they charge

A job that starts behind the gates of its group is charged to the group: its cost to the bucket, and
one place in the window. A chain call that starts a job of the LIFO list passes no gate and charges
nothing.
-/

namespace GlideMq

open Queue Redis

/-- The writes of `chargeGroup`. -/
def GroupHash.charge (g : GroupHash) (cost now : Int) : GroupHash :=
  let g := if 0 < g.tbCapacity then { g with tbTokens := some (g.tbTokens.getD 0 - cost) } else g
  if 0 < g.rateMax ∧ 0 < g.rateDuration then
    if g.rateDuration ≤ now - g.rateWindowStart then { g with rateWindowStart := now, rateCount := 1 }
    else { g with rateCount := g.rateCount + 1 }
  else g

theorem chargeGroup_eq (s : Queue) (gk : GroupKey) (cost now : Int) :
    chargeGroup s gk cost now = s.hgroup gk (·.charge cost now) := rfl

theorem quota_charge (g : GroupHash) (cost now : Int) :
    (g.charge cost now).quota = g.quota.charge cost now := by
  unfold GroupHash.charge GroupHash.quota
  grind

/-- The bucket and the window let a job of this cost start. -/
structure GroupHash.Admits (g : GroupHash) (cost now : Int) : Prop where
  tokens : 0 < g.tbCapacity → cost ≤ g.tbTokens.getD g.tbCapacity
  window : windowDelay g now = none

theorem refill_tokens_le {g : GroupHash} {x : Int} (hcap : 0 < g.tbCapacity) :
    (tbRefill g x).2 ≤ (tbRefill g x).1.tbTokens.getD g.tbCapacity := by
  unfold tbRefill
  simp only [not_le.mpr hcap, if_false]
  repeat' split
  all_goals simp_all

theorem tbCapacity_tbRefill (g : GroupHash) (x : Int) : (tbRefill g x).1.tbCapacity = g.tbCapacity := by
  have h : (tbRefill g x).1.core.tbCapacity = g.core.tbCapacity := by rw [core_tbRefill]
  exact h

theorem windowDelay_tbRefill (g : GroupHash) (x now : Int) :
    windowDelay (tbRefill g x).1 now = windowDelay g now := by
  unfold windowDelay tbRefill
  grind

theorem tokenDelay_eq_none {g : GroupHash} {tokens cost : Int} :
    tokenDelay g tokens cost = none ↔ (0 < g.tbCapacity → cost ≤ tokens) := by
  unfold tokenDelay
  split
  · simp_all
  · simp_all

theorem admits_tbRefill {g : GroupHash} {x cost now : Int}
    (htb : tokenDelay g (tbRefill g x).2 cost = none) (hrl : windowDelay g now = none) :
    (tbRefill g x).1.Admits cost now := by
  constructor
  · intro hcap
    rw [tbCapacity_tbRefill] at hcap ⊢
    exact (tokenDelay_eq_none.mp htb hcap).trans (refill_tokens_le hcap)
  · rw [windowDelay_tbRefill, hrl]

/-! ## Starts -/

/-- The job starts at `now`, and the group that `charge` names is charged, at the server's clock
`x`. -/
structure Starts (x now : Int) (u t : Queue) (J : JobId) (charge : Option GroupKey) : Prop where
  active : (t.job J).state = some .active
  since : (t.job J).processedOn = some now
  group : (t.job J).groupKey = (u.job J).groupKey
  cost : (t.job J).cost = (u.job J).cost
  others : ∀ K, K ≠ J → t.job K = u.job K
  quotas : ∀ gk, (t.groups gk).quota =
    (if charge = some gk then (u.groups gk).charge ((u.job J).cost.getD 1000) now
      else u.groups gk).quota
  key : ∀ gk ∈ charge, (u.job J).groupKey = some gk
  refilled : ∀ gk ∈ charge, (tbRefill (u.groups gk) x).1 = u.groups gk
  admits : ∀ gk ∈ charge, (u.groups gk).Admits ((u.job J).cost.getD 1000) now

section

variable {x now : Int} {s t u v : Queue} {J : JobId} {gk : GroupKey} {charge : Option GroupKey}

theorem job_activate_self (s : Queue) (J : JobId) (now : Int) (b : Bool) :
    (activate s J now b).job J = { s.job J with
      state := some .active, processedOn := some now, lastActive := some now, listSourced := some b } := by
  simp [activate, Queue.job]

theorem job_activate_of_ne {K : JobId} (hK : K ≠ J) (s : Queue) (now : Int) (b : Bool) :
    (activate s J now b).job K = s.job K := by
  simp [activate, Queue.job, hK]

theorem starts_activate (s : Queue) (J : JobId) (now : Int) (b : Bool) :
    Starts x now s (activate s J now b) J none where
  active := by rw [job_activate_self]
  since := by rw [job_activate_self]
  group := by rw [job_activate_self]
  cost := by rw [job_activate_self]
  others K hK := job_activate_of_ne hK s now b
  quotas gk := by simp [activate]
  key := nofun
  refilled := nofun
  admits := nofun

theorem Starts.quiet (h : Starts x now u t J charge) (hj : v.jobs = t.jobs)
    (hg : ∀ gk, (v.groups gk).quota = (t.groups gk).quota) : Starts x now u v J charge := by
  have hjob := job_of_jobs hj
  exact ⟨by rw [hjob, h.active], by rw [hjob, h.since], by rw [hjob, h.group], by rw [hjob, h.cost],
    fun K hK => (hjob K).trans (h.others K hK), fun gk => (hg gk).trans (h.quotas gk), h.key,
    h.refilled, h.admits⟩

theorem quota_takeSlot (s : Queue) (gk k : GroupKey) (seq : Nat) :
    ((takeSlot s gk seq).groups k).quota = (s.groups k).quota := by
  unfold takeSlot
  rw [hgroup_groups, Function.update_apply]
  split
  · rename_i hk
    rw [hk]
    rfl
  · rfl

theorem starts_charged {b : Bool} (hkey : (u.job J).groupKey = some gk)
    (hrefilled : (tbRefill (u.groups gk) x).1 = u.groups gk)
    (hadmits : (u.groups gk).Admits ((u.job J).cost.getD 1000) now)
    (hj : t.jobs = (activate u J now b).jobs)
    (hg : ∀ k, (t.groups k).quota =
      ((chargeGroup u gk ((u.job J).cost.getD 1000) now).groups k).quota) :
    Starts x now u t J (some gk) := by
  have hjob := job_of_jobs hj
  refine ⟨?_, ?_, ?_, ?_, fun K hK => ?_, fun k => ?_, ?_, ?_, ?_⟩
  · rw [hjob, job_activate_self]
  · rw [hjob, job_activate_self]
  · rw [hjob, job_activate_self]
  · rw [hjob, job_activate_self]
  · rw [hjob, job_activate_of_ne hK]
  · rw [hg k, chargeGroup_eq, hgroup_groups, Function.update_apply]
    by_cases hk : k = gk
    · subst hk
      simp
    · simp [hk, Ne.symm hk]
  · rintro k ⟨⟩
    exact hkey
  · rintro k ⟨⟩
    exact hrefilled
  · rintro k ⟨⟩
    exact hadmits

/-! ## `moveToActive` -/

/-- The job is past its group's frontier: it was activated before, and passes no gate. -/
def isReturning (s : Queue) (gk : GroupKey) (J : JobId) : Bool :=
  let seq := (s.job J).orderingSeq
  let nextSeq := (skipToNext s gk (s.groups gk).nextSeq).2
  0 < seq ∧ 0 < nextSeq ∧ seq < nextSeq

/-- The stored hash, with the mark from before the write. -/
def readBefore (before stored : Job) : Job := { stored with listSourced := before.listSourced }

theorem claimedFields_eq {b : Bool} (h : t.jobs = (activate u J now b).jobs) :
    claimedFields (u.job J) now = readBefore (u.job J) (t.job J) := by
  rw [job_of_jobs h, job_activate_self]
  rfl

/-- How an activation goes on: its job starts, it starts again, or nothing is charged. -/
inductive Attempt (x now : Int) (s t : Queue) (J : JobId) : Option Job → Prop
  | started {u : Queue} {charge : Option GroupKey} (hidle : Idle x s u) (hkey : (u.job J).groupKey = charge)
      (h : Starts x now u t J charge) : Attempt x now s t J (some (readBefore (s.job J) (t.job J)))
  | returned {gk : GroupKey} (hkey : (s.job J).groupKey = some gk) (hreturns : isReturning s gk J)
      (hactive : (t.job J).state = some .active ∧ (t.job J).processedOn = some now)
      (hself : (t.job J).groupKey = some gk ∧ (t.job J).cost = (s.job J).cost)
      (hothers : ∀ K, K ≠ J → t.job K = s.job K) (hquotas : ∀ k, k ≠ gk → Refilled x (s.groups k) (t.groups k)) :
      Attempt x now s t J (some (readBefore (s.job J) (t.job J)))
  | idle (h : Idle x s t) : Attempt x now s t J none

def ActivationResult.fields : ActivationResult → Option Job
  | .active fields => some fields
  | _ => none

theorem calm_skipIf (s : Queue) (gk : GroupKey) (seq : Nat) :
    Calm x s (if 0 < seq then skipToNext s gk (s.groups gk).nextSeq else (s, 0)).1 := by
  split
  · exact (Calm.refl s).quiet (books_skipToNext _ _ _)
  · exact .refl s

theorem job_skipIf (s : Queue) (gk : GroupKey) (seq : Nat) (K : JobId) :
    (if 0 < seq then skipToNext s gk (s.groups gk).nextSeq else (s, 0)).1.job K = s.job K := by
  unfold Queue.job
  split
  · rw [skipToNext_jobs]
  · rfl

theorem refill_groups_self (s : Queue) (gk : GroupKey) (x : Int) :
    (refill s gk x).1.groups gk = (tbRefill (s.groups gk) x).1 := by
  simp [refill]

theorem refilled_refill (s : Queue) (gk : GroupKey) (x : Int) :
    (tbRefill ((refill s gk x).1.groups gk) x).1 = (refill s gk x).1.groups gk := by
  rw [refill_groups_self, tbRefill_idem]

theorem isReturning_iff (s : Queue) (gk : GroupKey) (J : JobId) :
    isReturning s gk J ↔
      0 < (if 0 < (s.job J).orderingSeq then skipToNext s gk (s.groups gk).nextSeq else (s, 0)).2 ∧
        (s.job J).orderingSeq <
          (if 0 < (s.job J).orderingSeq then skipToNext s gk (s.groups gk).nextSeq else (s, 0)).2 := by
  unfold isReturning
  by_cases hseq : 0 < (s.job J).orderingSeq
  · simp [hseq]
  · simp [hseq]

/-- The writes of a start in its group. -/
def startPastGates (u : Queue) (a : MoveArgs) (gk : GroupKey) (seq : Nat) (returning : Bool) : Queue :=
  let s := chargeGroup u gk ((u.job a.jobId).cost.getD 1000) a.timestamp
  let s := if returning then s else takeSlot s gk seq
  let s := if 0 < seq then s.zremGroupq gk a.jobId else s
  activate s a.jobId a.timestamp a.entryId.isNone

theorem startPastGates_jobs (u : Queue) (a : MoveArgs) (gk : GroupKey) (seq : Nat) (returning : Bool) :
    (startPastGates u a gk seq returning).jobs = (activate u a.jobId a.timestamp a.entryId.isNone).jobs := by
  unfold startPastGates
  simp only
  repeat' split
  all_goals rfl

theorem startPastGates_quota (u : Queue) (a : MoveArgs) (gk k : GroupKey) (seq : Nat) (returning : Bool) :
    ((startPastGates u a gk seq returning).groups k).quota =
      ((chargeGroup u gk ((u.job a.jobId).cost.getD 1000) a.timestamp).groups k).quota := by
  unfold startPastGates
  cases returning with
  | true =>
    simp only [if_true]
    split <;> rfl
  | false =>
    refine Eq.trans ?_ (quota_takeSlot _ gk k seq)
    simp only [Bool.false_eq_true, if_false]
    split <;> rfl

theorem claimInGroup_attempt {a : MoveArgs} (hkey : (s.job a.jobId).groupKey = some gk) :
    Attempt a.serverNow a.timestamp s (claimInGroup s a gk).1 a.jobId
      (claimInGroup s a gk).2.fields := by
  have hskip := calm_skipIf (x := a.serverNow) s gk (s.job a.jobId).orderingSeq
  have hjob := job_skipIf s gk (s.job a.jobId).orderingSeq
  have hret := isReturning_iff s gk a.jobId
  unfold claimInGroup
  simp only
  generalize (if 0 < (s.job a.jobId).orderingSeq then skipToNext s gk (s.groups gk).nextSeq
    else (s, 0)) = r at *
  have hrefill : Calm a.serverNow s (refill r.1 gk a.serverNow).1 := hskip.refill gk
  split
  · exact .idle (hskip.idle.ackDel.calm (Calm.refl _).park)
  split
  · exact .idle (hskip.idle.ackDel.calm (Calm.refl _).park)
  split
  · exact .idle (hrefill.idle.ackDel.calm (Calm.refl _).failOversize.closeOrderingHoleAndPromote)
  split
  · have hpark : Idle a.serverNow s (park (ackDel (refill r.1 gk a.serverNow).1 a.group a.entryId)
        gk a.jobId (groupqScore (ackDel (refill r.1 gk a.serverNow).1 a.group a.entryId) a.jobId)) :=
      hrefill.idle.ackDel.calm (Calm.refl _).park
    split
    · exact .idle (hpark.other rfl rfl)
    · exact .idle (hpark.other rfl rfl)
  rename_i hgates
  have hjob' (K : JobId) : (refill r.1 gk a.serverNow).1.job K = s.job K := hjob K
  have hrefilled := refilled_refill r.1 gk a.serverNow
  have hself := refill_groups_self r.1 gk a.serverNow
  rw [← hjob' a.jobId] at hkey ⊢
  generalize (refill r.1 gk a.serverNow).1 = u at *
  change Attempt _ _ s (startPastGates u a gk _ (decide _)) a.jobId (some (claimedFields (u.job _) _))
  generalize hreturning : decide (0 < r.2 ∧ (u.job a.jobId).orderingSeq < r.2) = returning
  have hjobs := startPastGates_jobs u a gk (u.job a.jobId).orderingSeq returning
  have hquota (k : GroupKey) := startPastGates_quota u a gk k (u.job a.jobId).orderingSeq returning
  have hbefore : readBefore (u.job a.jobId) = readBefore (s.job a.jobId) := by rw [hjob']
  rw [claimedFields_eq hjobs, hbefore]
  cases returning with
  | false =>
    rw [hjob', decide_eq_false_iff_not] at hreturning
    simp only [hreturning, decide_false, Bool.false_eq_true, not_false_eq_true, and_true, not_or,
      Bool.not_eq_true, Option.isSome_eq_false_iff, Option.isNone_iff_eq_none] at hgates
    have hadmits := admits_tbRefill hgates.1 hgates.2
    rw [← hjob' a.jobId, ← hself] at hadmits
    exact .started hrefill.idle hkey (starts_charged hkey hrefilled hadmits hjobs hquota)
  | true =>
    rw [hjob', decide_eq_true_eq] at hreturning
    have hjob'' := job_of_jobs hjobs
    refine .returned (by rw [← hjob', hkey]) (hret.mpr hreturning) ?_ ?_ (fun K hK => ?_) fun k hk => ?_
    · rw [hjob'', job_activate_self]
      exact ⟨rfl, rfl⟩
    · rw [hjob'', ← hjob', job_activate_self]
      exact ⟨hkey, rfl⟩
    · rw [hjob'', job_activate_of_ne hK, hjob']
    · refine Refilled.trans (hrefill.quotas k) (.inl ?_)
      rw [hquota, chargeGroup_eq, hgroup_groups, Function.update_of_ne hk]

theorem Attempt.other {fields : Option Job} (h : Attempt x now s t J fields) (hj : u.jobs = t.jobs)
    (hg : u.groups = t.groups) : Attempt x now s u J fields := by
  have hjob := job_of_jobs hj
  cases h with
  | started hidle hkey h =>
    rw [← hjob]
    exact .started hidle hkey (h.quiet hj fun k => by rw [hg])
  | returned hkey hreturns hactive hself hothers hquotas =>
    rw [← hjob] at hactive hself ⊢
    exact .returned hkey hreturns hactive hself (fun K hK => by rw [hjob, hothers K hK])
      fun k hk => by rw [hg]; exact hquotas k hk
  | idle h => exact .idle (h.other hj hg)

theorem moveToActiveClaim_attempt (s : Queue) (a : MoveArgs) :
    Attempt a.serverNow a.timestamp s (moveToActiveClaim s a).1 a.jobId
      (moveToActiveClaim s a).2.fields := by
  unfold moveToActiveClaim
  simp only
  split
  · exact .idle (.refl s)
  · rename_i job hj
    have hjob : s.job a.jobId = job := by simp [Queue.job, hj]
    split
    · exact .idle (Idle.refl s).ackDel
    split
    · exact .idle (.refl s)
    split
    · exact .idle (.refl s)
    split
    · exact .idle (Calm.refl s).expireJob.idle.ackDel
    split
    · exact .idle (.refl s)
    split
    · rename_i gk hgk
      rw [← hjob] at hgk
      exact claimInGroup_attempt hgk
    · rename_i hgk
      rw [← hjob] at hgk
      have hstarts := starts_activate (x := a.serverNow) s a.jobId a.timestamp a.entryId.isNone
      rw [← hjob, claimedFields_eq rfl]
      exact .started (.refl s) hgk hstarts

theorem moveToActive_attempt (s : Queue) (a : MoveArgs) :
    Attempt a.serverNow a.timestamp s (moveToActive s a).1 a.jobId (moveToActive s a).2.fields := by
  have hclaim := moveToActiveClaim_attempt s a
  unfold moveToActive
  generalize moveToActiveClaim s a = r at *
  simp only
  split
  · split
    · exact hclaim.other rfl rfl
    · split
      · exact hclaim.other rfl rfl
      · exact hclaim
  · exact hclaim

end

end GlideMq
