import GlideMq.Proofs.OutOfReach
import GlideMq.Proofs.WindowBound

/-!
# Paused groups

`rateLimitGroup` writes the time at which a group may go on into a set of its own. Claims decide by the
group's hash, which knows nothing of it, so a pause holds as far as nothing comes to a job of the
group.
-/

namespace GlideMq

open Queue Redis

section

variable {w : Lookout} {k : GroupKey} {x serverNow : Int} {t u : Queue} {J P : JobId} {m : DepMember}

/-! ## Settling -/

theorem OutOfReach.foldl {α : Type} {f : Queue → α → Queue} {l : List α}
    (hf : ∀ u a, OutOfReach w u → OutOfReach w (f u a)) (h : OutOfReach w t) :
    OutOfReach w (l.foldl f t) := by
  induction l generalizing t with
  | nil => exact h
  | cons a l ih => exact ih (hf t a h)

theorem OutOfReach.removeExcessJobs (h : OutOfReach w t) (z : TerminalSet) (ids : List JobId) :
    OutOfReach w (removeExcessJobs t z ids) := by
  unfold GlideMq.removeExcessJobs
  refine .foldl (fun u J hu => ?_) (.foldl (fun u J hu => hu.unlinkJob) h)
  cases z <;> exact hu.quiet rfl

theorem OutOfReach.retainCount (h : OutOfReach w t) (z : TerminalSet) (n : Nat) :
    OutOfReach w (retainCount t z n) := by
  unfold GlideMq.retainCount
  simp only
  split
  · exact h.removeExcessJobs z _
  · exact h

theorem OutOfReach.retain (h : OutOfReach w t) (z : TerminalSet) (r : Retention) :
    OutOfReach w (retain t z J r x) := by
  cases r with
  | keep => exact h
  | remove => exact h.unlinkJob
  | count n => exact h.retainCount z n
  | ageCount age n =>
    refine OutOfReach.retainCount ?_ z n
    unfold retainAge
    split
    · exact h.removeExcessJobs z _
    · exact h

theorem OutOfReach.settleListClaim (h : OutOfReach w t) {e : Option Nat} :
    OutOfReach w (settleListClaim t J e) := by
  unfold GlideMq.settleListClaim decrListActive
  simp only
  repeat' split
  all_goals exact h.quiet rfl

theorem OutOfReach.forgetListClaim (h : OutOfReach w t) {e : Option Nat} :
    OutOfReach w (forgetListClaim t J e) := by
  unfold GlideMq.forgetListClaim
  split <;> exact h.quiet rfl

/-! ## Parents -/

theorem JobStays.markDone (j : Job) (m : DepMember) : JobStays k x j (j.markDone m) := by
  unfold Job.markDone
  split <;> exact .touch rfl rfl rfl rfl

theorem JobStays.countEarly (j : Job) (m : DepMember) : JobStays k x j (j.countEarly m) := by
  unfold Job.countEarly Job.markDone
  simp only
  split <;> exact .touch rfl rfl rfl rfl

theorem JobStays.foldl_countEarly (ready : List DepMember) (j : Job) :
    JobStays k x j (ready.foldl Job.countEarly j) := by
  induction ready generalizing j with
  | nil => exact .refl j
  | cons m ready ih => exact (JobStays.countEarly j m).trans (ih _)

theorem OutOfReach.releaseParentIfReady (h : OutOfReach w t) (hP : w.told P) :
    OutOfReach w (releaseParentIfReady t P).1 := by
  -- A parent that is told of is none of the group's that waits for its children.
  unfold GlideMq.releaseParentIfReady
  simp only
  split
  · rename_i hready
    have hwaits : (t.job P).state = some .waitingChildren := by rw [← stateOf_eq, hready.2]
    have hfit : ¬ (t.job P).Fit w.gk w.now := fun hfit => h.parents P hP ⟨hfit, hwaits⟩
    have hjob : (t.setState P .waiting).job P = { t.job P with state := some .waiting } := by
      simp [Queue.setState, Queue.job]
    have hset : OutOfReach w (t.setState P .waiting) :=
      h.hset_at ⟨fun hst => absurd ⟨hst.key, hst.live, hst.due⟩ hfit, fun ha => absurd ha.children (by simp)⟩
    refine hset.xaddJob fun hst => hfit ?_
    rw [hjob] at hst
    exact ⟨hst.key, hst.live, hst.due⟩
  · exact h

theorem OutOfReach.completeParentDependency (h : OutOfReach w t) (hP : w.told P) :
    OutOfReach w (completeParentDependency t P m).1 := by
  unfold GlideMq.completeParentDependency
  simp only
  split
  · exact h
  split
  · unfold parkEarly
    split
    · exact h
    · have hmod := h.hmod (J := P) (f := fun j =>
        { j with depearly := m :: j.depearly, depsEarly := j.depsEarly + 1 }) fun _ => .touch rfl rfl rfl rfl
      exact hmod.quiet rfl
  have hearly : OutOfReach w (countEarlyDeps t P).1 := by
    unfold countEarlyDeps
    simp only
    split
    · exact h
    · exact h.hmod fun j => .foldl_countEarly _ j
  have hmark : OutOfReach w ((countEarlyDeps t P).1.hmod P (·.markDone m)) := hearly.hmod fun j => .markDone j m
  split
  · exact hmark.releaseParentIfReady hP
  · exact hmark

theorem OutOfReach.notifyParent (h : OutOfReach w t) (q : Option QueueName) (p : Option JobId)
    (ns : List ParentNotify) : OutOfReach w (notifyParent q p (t, ns) J).1 := by
  unfold GlideMq.notifyParent enqueueCrossQueueParentNotify
  simp only
  split
  · split
    · exact h
    · exact h.quiet rfl
  · exact h

theorem OutOfReach.enqueueTreeParentNotifies (h : OutOfReach w t) (q : Option QueueName) (p : Option JobId)
    (replacedIds : List JobId) : OutOfReach w (enqueueTreeParentNotifies t J q p replacedIds).1 := by
  unfold GlideMq.enqueueTreeParentNotifies
  generalize J :: replacedIds = ids
  suffices hall : ∀ r : Queue × List ParentNotify, OutOfReach w r.1 →
      OutOfReach w (ids.foldl (GlideMq.notifyParent q p) r).1 from hall (t, []) h
  induction ids with
  | nil => exact fun _ hr => hr
  | cons K ids ih => exact fun r hr => ih _ (hr.notifyParent q p r.2)

theorem OutOfReach.resolveDagParents (edges : List DepMember)
    (hedges : ∀ p ∈ edges, p.queue = w.before.name → w.told p.job) {r : Queue × List ParentNotify}
    (h : OutOfReach w r.1) : OutOfReach w (edges.foldl (resolveDagParent J) r).1 := by
  induction edges generalizing r with
  | nil => exact h
  | cons p edges ih =>
    refine ih (fun p hp => hedges p (List.mem_cons_of_mem _ hp)) ?_
    unfold resolveDagParent
    split
    · rename_i hq
      exact h.completeParentDependency (hedges p List.mem_cons_self (hq.trans h.name))
    · exact h.notifyParent _ _ _

theorem OutOfReach.completeParents (h : OutOfReach w t) {q : Option QueueName} {p : Option JobId}
    (htree : ∀ P ∈ p, q = some w.before.name → w.told P)
    (hedges : ∀ m ∈ w.before.parents J, m.queue = w.before.name → w.told m.job) (ns : List ParentNotify) :
    OutOfReach w (completeParents t J q p ns).1 := by
  unfold GlideMq.completeParents
  cases p with
  | none =>
    refine OutOfReach.resolveDagParents _ ?_ h
    rw [h.edges]
    exact hedges
  | some P =>
    simp only
    have hparent : OutOfReach w (if q = some t.name then
        (GlideMq.completeParentDependency t P ⟨t.name, J⟩).1 else t) := by
      split
      · rename_i hq
        exact h.completeParentDependency (htree P rfl (by rw [hq, h.name]))
      · exact h
    refine OutOfReach.resolveDagParents _ ?_ hparent
    rw [hparent.edges]
    exact hedges

/-! ## The settled job -/

theorem OutOfReach.markCompleted (h : OutOfReach w t) {r : Retention} :
    OutOfReach w (markCompleted t J r x) := by
  unfold GlideMq.markCompleted
  split
  · exact h
  · have hadd : OutOfReach w (t.zaddCompleted J x) := h.quiet rfl
    exact hadd.hset fun _ => .rest rfl nofun

theorem groupKey_markCompleted (s : Queue) (J : JobId) (r : Retention) (y : Int) :
    ((markCompleted s J r y).job J).groupKey = (s.job J).groupKey := by
  unfold GlideMq.markCompleted
  split
  · rfl
  · simp [Queue.setCompleted, Queue.job]

theorem OutOfReach.completeInChain {a : CompleteNextArgs} {cur : Job} (h : OutOfReach w t)
    (hslot : w.parks → a.groupKey ≠ .absent →
      (a.groupKey.value <|> (t.job a.jobId).groupKey) ≠ some w.gk)
    (htree : ∀ P ∈ cur.parentId, cur.parentQueue = some w.before.name → w.told P)
    (hedges : ∀ m ∈ w.before.parents a.jobId, m.queue = w.before.name → w.told m.job) :
    OutOfReach w (completeInChain t a cur).1 := by
  -- The completion of a chain call gives back no slot of the group while its jobs may be parked.
  unfold GlideMq.completeInChain
  simp only
  have hmark : OutOfReach w (GlideMq.markCompleted t a.jobId a.retention a.timestamp) := h.markCompleted
  have hdone : OutOfReach w (markDoneByHints
      (GlideMq.markCompleted t a.jobId a.retention a.timestamp) a) := by
    refine hmark.quiet ?_
    unfold markDoneByHints
    split
    · exact waits_markOrderingDone _ _ _ _
    split
    · exact waits_markOrderingDone _ _ _ _
    · rfl
  have hkey : ((markDoneByHints (GlideMq.markCompleted t a.jobId a.retention a.timestamp) a).job
      a.jobId).groupKey = (t.job a.jobId).groupKey := by
    rw [← groupKey_markCompleted t a.jobId a.retention a.timestamp]
    unfold markDoneByHints
    repeat' split
    all_goals simp only [Queue.job, markOrderingDone_jobs]
  have hrelease : OutOfReach w (if a.groupKey ≠ .absent then
      GlideMq.releaseGroupSlotAndPromote
        (markDoneByHints (GlideMq.markCompleted t a.jobId a.retention a.timestamp) a) a.jobId
        a.timestamp a.serverNow a.groupKey.value false
      else markDoneByHints (GlideMq.markCompleted t a.jobId a.retention a.timestamp) a) := by
    split
    · rename_i habsent
      refine hdone.releaseGroupSlotAndPromote fun hparks => ?_
      rw [hkey]
      exact hslot hparks habsent
    · exact hdone
  refine OutOfReach.completeParents (OutOfReach.retain (OutOfReach.settleListClaim ?_) _ _) htree hedges _
  refine OutOfReach.enqueueTreeParentNotifies ?_ _ _ _
  split
  · exact hrelease
  · exact hrelease.quiet rfl

theorem OutOfReach.failRetry {a : FailArgs} {requeueOnly : Bool} (h : OutOfReach w t)
    (hslot : w.parks → (t.job a.jobId).groupKey ≠ some w.gk) : OutOfReach w (failRetry t a requeueOnly) := by
  unfold GlideMq.failRetry
  simp only
  have hindex : OutOfReach w (if ¬ requeueOnly ∧ (t.job a.jobId).opts.fallbacks then
      t.hset a.jobId fun j => { j with fallbackIndex := j.fallbackIndex + 1 } else t) := by
    split
    · exact h.hset fun _ => .touch rfl rfl rfl rfl
    · exact h
  have hkey : ((if ¬ requeueOnly ∧ (t.job a.jobId).opts.fallbacks then
      t.hset a.jobId fun j => { j with fallbackIndex := j.fallbackIndex + 1 } else t).job
      a.jobId).groupKey = (t.job a.jobId).groupKey := by
    split
    · simp [Queue.job]
    · rfl
  generalize (if ¬ requeueOnly ∧ (t.job a.jobId).opts.fallbacks then
      t.hset a.jobId fun j => { j with fallbackIndex := j.fallbackIndex + 1 } else t) = u at *
  refine OutOfReach.settleListClaim ?_
  generalize hv : (Queue.hset (u.zaddScheduled a.jobId _) a.jobId _) = v
  have hset : OutOfReach w v := by
    rw [← hv]
    have hadd (y : Int) : OutOfReach w (u.zaddScheduled a.jobId y) := hindex.quiet rfl
    exact (hadd _).hset fun _ => .rest rfl (by simp)
  have hkeyv : (v.job a.jobId).groupKey = (t.job a.jobId).groupKey := by
    rw [← hkey, ← hv]
    simp [Queue.job]
  split
  · exact hset.hset fun _ => .touch rfl rfl rfl rfl
  · refine hset.releaseGroupSlotAndPromote fun hparks => ?_
    change (v.job a.jobId).groupKey ≠ some w.gk
    rw [hkeyv]
    exact hslot hparks

theorem OutOfReach.failFinal {a : FailArgs} {processedOn : Int} (h : OutOfReach w t)
    (hslot : w.parks → (t.job a.jobId).groupKey ≠ some w.gk) : OutOfReach w (failFinal t a processedOn) := by
  unfold GlideMq.failFinal
  simp only
  have hmark : OutOfReach w (markFailed t a) := by
    unfold markFailed
    split
    · exact h
    · exact h.zaddFailed.hset fun _ => .rest rfl nofun
  have hkey : ((markFailed t a).job a.jobId).groupKey = (t.job a.jobId).groupKey := by
    unfold markFailed
    split
    · rfl
    · simp [Queue.job]
  have hdone : OutOfReach w (markOrderingDone (markFailed t a) a.jobId none none) :=
    hmark.quiet (waits_markOrderingDone _ _ _ _)
  have hrelease : OutOfReach w (GlideMq.releaseGroupSlotAndPromote
      (markOrderingDone (markFailed t a) a.jobId none none) a.jobId a.timestamp a.serverNow none false) := by
    refine hdone.releaseGroupSlotAndPromote fun hparks => ?_
    change ((markOrderingDone (markFailed t a) a.jobId none none).job a.jobId).groupKey ≠ some w.gk
    rw [job_of_jobs (markOrderingDone_jobs _ _ _ _), hkey]
    exact hslot hparks
  refine OutOfReach.settleListClaim (OutOfReach.retain ?_ _ _)
  split
  · exact hrelease
  · exact hrelease.quiet rfl

theorem OutOfReach.failJobCore {a : FailArgs} {requeueOnly : Bool} (h : OutOfReach w t)
    (hslot : w.parks → (t.job a.jobId).groupKey ≠ some w.gk) :
    OutOfReach w (failJobCore t a requeueOnly).1 := by
  unfold GlideMq.failJobCore
  simp only
  have hack : OutOfReach w (GlideMq.ackDel t a.group a.entryId) := h.ackDel
  have hjob : (GlideMq.ackDel t a.group a.entryId).job a.jobId = t.job a.jobId := by
    cases a.entryId <;> rfl
  split
  · exact hack.forgetListClaim
  rw [← hjob] at hslot
  generalize GlideMq.ackDel t a.group a.entryId = u at *
  have hmade : OutOfReach w (if requeueOnly then u else
      u.hset a.jobId fun j => { j with attemptsMade := j.attemptsMade + 1 }) := by
    split
    · exact hack
    · exact hack.hset fun _ => .touch rfl rfl rfl rfl
  have hkey : ((if requeueOnly then u else
      u.hset a.jobId fun j => { j with attemptsMade := j.attemptsMade + 1 }).job a.jobId).groupKey =
      (u.job a.jobId).groupKey := by
    split
    · rfl
    · simp [Queue.job]
  rw [← hkey] at hslot
  generalize (if requeueOnly then u else
    u.hset a.jobId fun j => { j with attemptsMade := j.attemptsMade + 1 }) = v at *
  split
  · exact hmade.failRetry hslot
  · exact hmade.failFinal hslot

theorem completeAndFetchNext_spares {s : Queue} {a : CompleteNextArgs} (h : OutOfReach w s)
    (hbefore : w.before = s) (hnow : a.timestamp = w.now) (hgroup : a.group = w.group)
    (hslot : w.parks → a.groupKey ≠ .absent →
      (a.groupKey.value <|> (s.job a.jobId).groupKey) ≠ some w.gk)
    (htree : ∀ P ∈ (s.job a.jobId).parentId, (s.job a.jobId).parentQueue = some s.name → w.told P)
    (hedges : ∀ m ∈ s.parents a.jobId, m.queue = s.name → w.told m.job) {reply : ChainReply}
    (hreply : (completeAndFetchNext s a).2 = some reply) : reply.next.Spares w.gk := by
  unfold completeAndFetchNext at hreply
  simp only at hreply
  split at hreply
  · cases hreply
  have hbegin : OutOfReach w (beginChain s) := h.quiet rfl
  have hack : OutOfReach w (GlideMq.ackDel (beginChain s) a.group a.entryId) := hbegin.ackDel
  have hjob : (GlideMq.ackDel (beginChain s) a.group a.entryId).job a.jobId = s.job a.jobId := by
    cases a.entryId <;> rfl
  generalize hr : (if (s.job a.jobId).state = Option.none then
      (GlideMq.forgetListClaim (GlideMq.ackDel (beginChain s) a.group a.entryId) a.jobId a.entryId, [])
    else GlideMq.completeInChain (GlideMq.ackDel (beginChain s) a.group a.entryId) a (s.job a.jobId)) = r
    at hreply
  have hsettled : OutOfReach w r.1 := by
    rw [← hr]
    split
    · exact hack.forgetListClaim
    · rw [← hjob] at hslot
      exact hack.completeInChain hslot (by rwa [hbefore]) (by rwa [hbefore])
  split at hreply
  · cases hreply
    exact spares_none _
  · cases hreply
    exact fetchNextForChain_spares hsettled hnow hgroup

theorem failAndFetchNext_spares {s : Queue} {a : FailArgs} {consumer : String} (h : OutOfReach w s)
    (hnow : a.timestamp = w.now) (hgroup : a.group = w.group)
    (hslot : w.parks → (s.job a.jobId).groupKey ≠ some w.gk) :
    (failAndFetchNext s a consumer).2.2.next.Spares w.gk := by
  have hbegin : OutOfReach w (beginChain s) := h.quiet rfl
  have hsettled : OutOfReach w (GlideMq.failJobCore (beginChain s) a false).1 := hbegin.failJobCore hslot
  unfold failAndFetchNext
  simp only
  split
  · exact spares_none _
  · exact fetchNextForChain_spares (a := a.fetch consumer) hsettled hnow hgroup

end

/-! ## Claims of a group's job -/

/-- What every claim is asked. -/
structure MoveArgs.PassesQueue (a : MoveArgs) (s : Queue) : Prop where
  found : s.jobs a.jobId ≠ none
  waits : isActivatable (s.job a.jobId).state
  live : (s.job a.jobId).revoked = false
  running : s.paused = false
  due : isExpired (s.job a.jobId) a.timestamp = false
  room : ¬ (a.globalGate ∧ ∃ e ∈ a.entryId, globalFull s a.group e)

/-- The queue and the frontier after the skip markers at the frontier are used up. -/
def MoveArgs.frontier (a : MoveArgs) (s : Queue) (gk : GroupKey) : Queue × Nat :=
  frontierOf s gk (s.job a.jobId).orderingSeq

/-- The job had its slot before. -/
def MoveArgs.returns (a : MoveArgs) (s : Queue) (gk : GroupKey) : Bool :=
  0 < (a.frontier s gk).2 ∧ (s.job a.jobId).orderingSeq < (a.frontier s gk).2

/-- What a claim of a group's job is asked: its turn, a slot, its cost and its charge. -/
structure MoveArgs.PassesGroup (a : MoveArgs) (s : Queue) (gk : GroupKey) : Prop where
  turn : 0 < (a.frontier s gk).2 → (s.job a.jobId).orderingSeq ≤ (a.frontier s gk).2
  slot : a.returns s gk ∨ ((a.frontier s gk).1.groups gk).maxConcurrency ≤ 0 ∨
    ((a.frontier s gk).1.groups gk).active < ((a.frontier s gk).1.groups gk).maxConcurrency
  cost : 0 < ((a.frontier s gk).1.groups gk).tbCapacity →
    (s.job a.jobId).cost.getD 1000 ≤ ((a.frontier s gk).1.groups gk).tbCapacity
  charge : a.returns s gk ∨
    tokenDelay ((a.frontier s gk).1.groups gk) (refill (a.frontier s gk).1 gk a.serverNow).2
        ((s.job a.jobId).cost.getD 1000) = none ∧
      windowDelay ((a.frontier s gk).1.groups gk) a.timestamp = none

theorem claimInGroup_active_iff (s : Queue) (a : MoveArgs) (gk : GroupKey) :
    (claimInGroup s a gk).2.fields.isSome ↔ a.PassesGroup s gk := by
  unfold claimInGroup
  simp only
  have hr : a.frontier s gk = if 0 < (s.job a.jobId).orderingSeq then
      skipToNext s gk (s.groups gk).nextSeq else (s, 0) := rfl
  have hreturns : decide (0 < (a.frontier s gk).2 ∧
      (s.job a.jobId).orderingSeq < (a.frontier s gk).2) = a.returns s gk := rfl
  rw [← hr, hreturns]
  constructor
  · intro h
    split at h
    · cases h
    rename_i hturn
    split at h
    · cases h
    rename_i hslot
    split at h
    · cases h
    rename_i hcost
    split at h
    · split at h <;> cases h
    rename_i hcharge
    refine ⟨by omega, ?_, by omega, ?_⟩
    · by_contra hno
      rw [not_or, not_or] at hno
      exact hslot ⟨by omega, by omega, hno.1⟩
    · by_cases hret : a.returns s gk
      · exact .inl hret
      · have hopen := fun hgates => hcharge ⟨hgates, hret⟩
        rw [imp_false, not_or] at hopen
        simpa using Or.inr hopen
  · intro h
    have hturn : ¬ (0 < (a.frontier s gk).2 ∧ (a.frontier s gk).2 < (s.job a.jobId).orderingSeq) :=
      fun hearly => absurd (h.turn hearly.1) (by omega)
    have hslot : ¬ (0 < ((a.frontier s gk).1.groups gk).maxConcurrency ∧
        ((a.frontier s gk).1.groups gk).maxConcurrency ≤ ((a.frontier s gk).1.groups gk).active ∧
        ¬ a.returns s gk = true) := by
      rintro ⟨hlimit, hfull, hret⟩
      rcases h.slot with hslot | hslot
      · exact hret hslot
      · omega
    have hcost : ¬ (0 < ((a.frontier s gk).1.groups gk).tbCapacity ∧
        ((a.frontier s gk).1.groups gk).tbCapacity < (s.job a.jobId).cost.getD 1000) :=
      fun hover => absurd (h.cost hover.1) (by omega)
    rw [if_neg hturn, if_neg hslot, if_neg hcost, if_neg ?_]
    · rfl
    · rintro ⟨hgates, hret⟩
      rcases h.charge with hcharge | hcharge
      · exact hret hcharge
      · simp [hcharge] at hgates

/-- A claim of a group's job goes through exactly if the queue and the group's hash let it. Whether the
group is paused is not asked. -/
theorem moveToActive_active_iff {s : Queue} {a : MoveArgs} {gk : GroupKey}
    (hkey : (s.job a.jobId).groupKey = some gk) :
    (moveToActive s a).2.fields.isSome ↔ a.PassesQueue s ∧ a.PassesGroup s gk := by
  have hresult : (moveToActive s a).2 = (moveToActiveClaim s a).2 := by
    unfold moveToActive
    simp only
    split
    · split
      · rename_i heq
        rw [heq]
      · split <;> rfl
    · rfl
  rw [hresult, ← claimInGroup_active_iff]
  unfold moveToActiveClaim
  simp only
  cases hj : s.jobs a.jobId with
  | none =>
    simp only
    constructor
    · intro h
      cases h
    · exact fun h => absurd hj h.1.found
  | some job =>
    have hjob : s.job a.jobId = job := by simp [Queue.job, hj]
    rw [hjob] at hkey
    simp only [hkey]
    constructor
    · intro h
      split at h
      · cases h
      rename_i hwaits
      split at h
      · cases h
      rename_i hlive
      split at h
      · cases h
      rename_i hrunning
      split at h
      · cases h
      rename_i hdue
      split at h
      · cases h
      rename_i hroom
      refine ⟨⟨by simp [hj], ?_, ?_, by simpa using hrunning, ?_, hroom⟩, h⟩
      all_goals rw [hjob]
      · simpa using hwaits
      · simpa using hlive
      · simpa using hdue
    · rintro ⟨⟨hfound, hwaits, hlive, hrunning, hdue, hroom⟩, hgroup⟩
      rw [hjob] at hwaits hlive hdue
      rw [if_neg (by simp [hwaits]), if_neg (by simp [hlive]), if_neg (by simp [hrunning]),
        if_neg (by simp [hdue]), if_neg hroom]
      exact hgroup

/-! ## A stopped queue -/

section

variable {s t : Queue} {J : JobId} {x : Int}

theorem paused_of_frame (h : t.frame = s.frame) : t.paused = s.paused := by
  have := congrArg Queue.paused h
  exact this

theorem paused_of_parentFrame (h : t.parentFrame = s.parentFrame) : t.paused = s.paused := by
  have := congrArg Queue.paused h
  exact this

theorem paused_removeExcessJobs (s : Queue) (z : TerminalSet) (ids : List JobId) :
    (removeExcessJobs s z ids).paused = s.paused := by
  have hfold (f : Queue → JobId → Queue) (hf : ∀ u J, (f u J).paused = u.paused) (u : Queue) :
      (ids.foldl f u).paused = u.paused := by
    induction ids generalizing u with
    | nil => rfl
    | cons J ids ih => exact (ih _).trans (hf u J)
  refine (hfold _ (fun u J => ?_) _).trans (hfold unlinkJob (fun _ _ => rfl) s)
  cases z <;> rfl

theorem paused_retain (s : Queue) (z : TerminalSet) (J : JobId) (r : Retention) (x : Int) :
    (retain s z J r x).paused = s.paused := by
  have hcount (u : Queue) (n : Nat) : (retainCount u z n).paused = u.paused := by
    unfold retainCount
    simp only
    split
    · exact paused_removeExcessJobs u z _
    · rfl
  cases r with
  | keep => rfl
  | remove => rfl
  | count n => exact hcount s n
  | ageCount age n =>
    refine (hcount _ n).trans ?_
    unfold retainAge
    split
    · exact paused_removeExcessJobs s z _
    · rfl

theorem paused_settleListClaim (s : Queue) (J : JobId) (e : Option Nat) :
    (settleListClaim s J e).paused = s.paused := by
  unfold settleListClaim decrListActive
  simp only
  repeat' split
  all_goals rfl

theorem paused_forgetListClaim (s : Queue) (J : JobId) (e : Option Nat) :
    (forgetListClaim s J e).paused = s.paused := by
  unfold forgetListClaim
  split <;> rfl

theorem paused_completeInChain (s : Queue) (a : CompleteNextArgs) (cur : Job) :
    (completeInChain s a cur).1.paused = s.paused := by
  have hdone : (markDoneByHints (markCompleted s a.jobId a.retention a.timestamp) a).paused = s.paused := by
    have hmark : (markCompleted s a.jobId a.retention a.timestamp).paused = s.paused := by
      unfold markCompleted
      split <;> rfl
    rw [← hmark]
    unfold markDoneByHints
    repeat' split
    · exact paused_of_frame (frame_markOrderingDone _ _ _ _)
    · exact paused_of_frame (frame_markOrderingDone _ _ _ _)
    · rfl
  unfold completeInChain
  simp only
  rw [paused_of_parentFrame (parentFrame_completeParents _ _ _ _ _), paused_retain,
    paused_settleListClaim, paused_of_parentFrame (parentFrame_enqueueTreeParentNotifies _ _ _ _ _)]
  repeat' split
  all_goals first
    | exact hdone
    | exact (paused_of_frame (frame_releaseGroupSlotAndPromote _ _ _ _ _ _)).trans hdone

theorem paused_failJobCore (s : Queue) (a : FailArgs) (requeueOnly : Bool) :
    (failJobCore s a requeueOnly).1.paused = s.paused := by
  have hack : (ackDel s a.group a.entryId).paused = s.paused := by cases a.entryId <;> rfl
  have hretry (u : Queue) : (failRetry u a requeueOnly).paused = u.paused := by
    unfold failRetry
    simp only
    rw [paused_settleListClaim]
    repeat' split
    all_goals first
      | rfl
      | exact (paused_of_frame (frame_releaseGroupSlotAndPromote _ _ _ _ _ _)).trans rfl
  have hfinal (u : Queue) (y : Int) : (failFinal u a y).paused = u.paused := by
    have hmark : (markOrderingDone (markFailed u a) a.jobId none none).paused = u.paused := by
      rw [paused_of_frame (frame_markOrderingDone _ _ _ _)]
      unfold markFailed
      split <;> rfl
    unfold failFinal
    simp only
    rw [paused_settleListClaim, paused_retain]
    split
    · exact (paused_of_frame (frame_releaseGroupSlotAndPromote _ _ _ _ _ _)).trans hmark
    · exact (paused_of_frame (frame_releaseGroupSlotAndPromote _ _ _ _ _ _)).trans hmark
  unfold failJobCore
  simp only
  split
  · rw [paused_forgetListClaim, hack]
  have hmade : (if requeueOnly then ackDel s a.group a.entryId else (ackDel s a.group a.entryId).hset
      a.jobId fun j => { j with attemptsMade := j.attemptsMade + 1 }).paused = s.paused := by
    split <;> exact hack
  generalize (if requeueOnly then ackDel s a.group a.entryId else (ackDel s a.group a.entryId).hset
      a.jobId fun j => { j with attemptsMade := j.attemptsMade + 1 }) = u at *
  split
  · exact (hretry u).trans hmade
  · exact (hfinal u _).trans hmade

theorem activation_of_paused {c : Call} (hc : c.chains) (hpaused : s.paused) : c.activation s = none := by
  cases c with
  | completeAndFetchNext a =>
    have hack : (ackDel (beginChain s) a.group a.entryId).paused = true := by
      cases a.entryId <;> exact hpaused
    have hsettled : (if (s.job a.jobId).state = none then
        (forgetListClaim (ackDel (beginChain s) a.group a.entryId) a.jobId a.entryId, [])
      else completeInChain (ackDel (beginChain s) a.group a.entryId) a (s.job a.jobId)).1.paused = true := by
      split
      · rw [paused_forgetListClaim, hack]
      · rw [paused_completeInChain, hack]
    simp only [Call.activation, completeAndFetchNext]
    split <;> rfl
  | failAndFetchNext a consumer =>
    have hsettled : (failJobCore (beginChain s) a false).1.paused = true :=
      (paused_failJobCore (beginChain s) a false).trans hpaused
    simp only [Call.activation, failAndFetchNext]
    rw [if_pos (Or.inr hsettled)]
    rfl
  | _ => cases hc

end

/-! ## Runs -/

/-- What a chain call can come to, of a group's jobs. Parked jobs are safe while the group is paused,
unless the call gives back a slot of the group. -/
def Call.lookout (s : Queue) (gk : GroupKey) : Call → Option Lookout
  | .completeAndFetchNext a => some
    { gk
      now := a.timestamp
      group := a.group
      parks := a.timestamp < (s.ratelimited.score gk).getD 0 ∧
        (a.groupKey ≠ .absent → (a.groupKey.value <|> (s.job a.jobId).groupKey) ≠ some gk)
      told := fun P =>
        (s.job a.jobId).parentId = some P ∧ (s.job a.jobId).parentQueue = some s.name ∨
          ⟨s.name, P⟩ ∈ s.parents a.jobId
      before := s }
  | .failAndFetchNext a _ => some
    { gk
      now := a.timestamp
      group := a.group
      parks := a.timestamp < (s.ratelimited.score gk).getD 0 ∧ (s.job a.jobId).groupKey ≠ some gk
      told := fun _ => False
      before := s }
  | _ => none

/-- The call comes to no job of the group: a claim is held back by one of the other gates, and a chain
call on a running queue has nothing of the group in reach. -/
def Call.Misses (s : Queue) (gk : GroupKey) : Call → Prop
  | .moveToActive a => (s.job a.jobId).groupKey = some gk → ¬ (a.PassesQueue s ∧ a.PassesGroup s gk)
  | c => s.paused = false → ∀ w ∈ c.lookout s gk, OutOfReach w s

def SysCall.Misses (S : Sys) (q : QueueName) (gk : GroupKey) : SysCall → Prop
  | .on q' c => q' = q → c.Misses (S q) gk
  | _ => True

/-- No job of the group becomes active in the call before the time `R`. -/
def SysCall.Honours (S : Sys) (q : QueueName) (gk : GroupKey) (R : Int) (c : SysCall) : Prop :=
  ∀ J, ((sysStep S c q).job J).groupKey = some gk → ((sysStep S c q).job J).state = some .active →
    ((S q).job J).state ≠ some .active → ∃ now ∈ c.startsAt, R ≤ now

/-- The call at the time `t` records that the group of the queue goes on at `R`. -/
inductive PausesUntil (S : Sys) (q : QueueName) (gk : GroupKey) (t R : Int) : SysCall → Prop
  | job {a : RateLimitArgs} (ht : a.timestamp = t) (hkey : ((S q).job a.jobId).groupKey = some gk)
      (h : (rateLimitGroup (S q) a).2 = .resumeAt R) : PausesUntil S q gk t R (.on q (.rateLimitGroup a))
  | group {duration : Int} {extendMax : Bool}
      (h : (rateLimitGroupExternal (S q) gk duration t extendMax).2 = R) :
      PausesUntil S q gk t R (.on q (.rateLimitGroupExternal gk duration t extendMax))

theorem score_pauseGroup (s : Queue) (gk : GroupKey) (resumeAt : Int) (extendMax : Bool) :
    (pauseGroup s gk resumeAt extendMax).1.ratelimited.score gk =
      some (pauseGroup s gk resumeAt extendMax).2 := by
  unfold pauseGroup
  simp [SortedSet.score_add]

section

variable {q : QueueName} {gk : GroupKey} {S : Sys} {t R : Int} {c : SysCall}

theorem PausesUntil.recorded (h : PausesUntil S q gk t R c) :
    (sysStep S c q).ratelimited.score gk = some R := by
  cases h with
  | @job a ht hkey h =>
    simp only [sysStep, onQueue, Function.update_self, Call.run]
    unfold rateLimitGroup at h ⊢
    simp only [hkey] at h ⊢
    split at h
    · cases h
    · rename_i hactive
      rw [if_neg hactive]
      cases h
      exact score_pauseGroup _ _ _ _
  | group h =>
    subst h
    simp only [sysStep, onQueue, Function.update_self, Call.run]
    exact score_pauseGroup _ _ _ _

theorem Call.Misses.spares {s : Queue} {c : Call} (h : c.Misses s gk) {J : JobId} {e : Option Nat}
    {fields : Job} (hact : c.activation s = some (J, e, fields)) : fields.groupKey ≠ some gk := by
  have hstarted (hkey : fields.groupKey = some gk) : (s.job J).groupKey = some gk :=
    startedIn_key (startedIn_eq_some.mpr ⟨e, fields, hact, hkey⟩)
  cases c with
  | moveToActive a =>
    intro hkey
    have hkey' := hstarted hkey
    simp only [Call.activation] at hact
    obtain ⟨fields', hfields, heq⟩ := Option.map_eq_some_iff.mp hact
    cases heq
    exact h hkey' ((moveToActive_active_iff hkey').mp (by rw [hfields]; rfl))
  | completeAndFetchNext a =>
    cases hpaused : s.paused with
    | true => rw [activation_of_paused rfl hpaused] at hact; cases hact
    | false =>
      simp only [Call.activation] at hact
      obtain ⟨reply, hreply, hnext⟩ := Option.bind_eq_some_iff.mp hact
      have hreach := h hpaused _ rfl
      have hspares := completeAndFetchNext_spares hreach rfl rfl rfl (fun hparks => hparks.2)
        (fun P hP hq => .inl ⟨hP, hq⟩) (fun m hm hq => .inr (by rw [← hq]; exact hm)) hreply
      exact hspares.activation hnext
  | failAndFetchNext a consumer =>
    cases hpaused : s.paused with
    | true => rw [activation_of_paused rfl hpaused] at hact; cases hact
    | false =>
      have hreach := h hpaused _ rfl
      exact (failAndFetchNext_spares hreach rfl rfl fun hparks => hparks.2).activation hact
  | _ => cases hact

theorem sysStep_honours (h : (∀ now ∈ c.startsAt, now < R) → c.Misses S q gk) : c.Honours S q gk R := by
  -- Only an activation makes a job active.
  intro J hkey hactive hidle
  by_contra hearly
  have hmisses := h fun now hnow => lt_of_not_ge fun hle => hearly ⟨now, hnow, hle⟩
  cases c with
  | on q' c =>
    by_cases hq : q' = q
    · subst hq
      simp only [sysStep, onQueue, Function.update_self] at hkey hactive
      cases call_active (S q') c hactive with
      | started hact hsince =>
        rw [← activation_groupKey hact] at hkey
        exact (hmisses rfl).spares hact hkey
      | kept hnot hundo hstill hclaim => exact hidle hstill
    · simp only [sysStep, onQueue, Function.update_of_ne (Ne.symm hq)] at hactive
      exact hidle hactive
  | addFlow a =>
    have hadds : SysAdds a.parent.serverNow (fun _ _ _ => True) S (addFlow S a).1 :=
      addFlow_adds rfl ⟨by simp, by simp⟩ S
    exact hidle ((hadds q).jobs J |>.active hactive).1
  | registerParent child parent =>
    have hadds : SysAdds 0 (fun _ _ _ => False) S (registerParent S child parent).1 :=
      registerParent_adds S child parent
    exact hidle ((hadds q).jobs J |>.active hactive).1

/-- After a pause until `R`, in a run whose calls before `R` come to no job of the group, none of its
jobs becomes active before `R`. -/
theorem groupPause_honoured {pause : SysCall} (hpause : PausesUntil S q gk t R pause) {calls : List SysCall}
    (hmeets : Machine.Meets sysStep (fun S c => (∀ now ∈ c.startsAt, now < R) → c.Misses S q gk)
      (sysStep S pause) calls) :
    ((sysStep S pause q).ratelimited.score gk = some R) ∧
      ∀ before c after, calls = before ++ c :: after →
        c.Honours (Machine.run sysStep (sysStep S pause) before) q gk R := by
  refine ⟨hpause.recorded, ?_⟩
  rintro before c after rfl
  exact sysStep_honours hmeets.append.2.1

end

/-- A pause at 1000 for a second. -/
def pauseForASecond : SysCall := .on "q" (.rateLimitGroupExternal "k" 1000 1000 true)

/-- A job of a group that runs one job at a time. -/
def addOrdered : SysCall :=
  .on "q" (.addJob { timestamp := 900, serverNow := 900, orderingKey := some "k" })

/-- A worker reads the entry of a job and claims it. -/
def readAndClaim (J : JobId) (entryId : Nat) (now : Int) : List SysCall :=
  [.on "q" (.readGroup "w" "a"),
   .on "q" (.moveToActive
    { jobId := J, entryId := some entryId, group := "w", timestamp := now, serverNow := now })]

/-- A job of the stream starts half a second before its group may go on. -/
theorem groupPause_ignored :
    let S := Machine.run sysStep emptySys [addOrdered]
    PausesUntil S "q" "k" 1000 2000 pauseForASecond ∧
      ¬ ∀ before c after, readAndClaim "1" 1 1500 = before ++ c :: after →
        c.Honours (Machine.run sysStep (sysStep S pauseForASecond) before) "q" "k" 2000 := by
  refine ⟨.group (by decide +kernel), fun h => ?_⟩
  obtain ⟨now, hnow, hle⟩ := h [_] _ [] rfl "1" (by decide +kernel) (by decide +kernel) (by decide +kernel)
  cases hnow
  exact absurd hle (by decide)

/-- A second job is claimed while the first one has the group's slot. -/
theorem groupPause_honoured_by_full_group :
    let S := Machine.run sysStep emptySys ([addOrdered, addOrdered] ++ readAndClaim "1" 1 950)
    ((sysStep S pauseForASecond "q").ratelimited.score "k" = some 2000) ∧
      ∀ before c after, readAndClaim "2" 2 1500 = before ++ c :: after →
        c.Honours (Machine.run sysStep (sysStep S pauseForASecond) before) "q" "k" 2000 := by
  refine groupPause_honoured (t := 1000) (.group (by decide +kernel)) ⟨fun _ _ => nofun, fun _ _ hkey => ?_, trivial⟩
  rw [← moveToActive_active_iff hkey]
  decide +kernel

end GlideMq
