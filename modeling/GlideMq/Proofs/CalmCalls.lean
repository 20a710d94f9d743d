import GlideMq.Proofs.Calm

/-!
# What the calls do to the claims

A settling call gives its claim back and leaves its job not active, and is calm besides.
-/

namespace GlideMq

open Queue Redis

/-! ## Settling -/

section

variable {x : Int} {s t : Queue} {J : JobId} {group : Group} {e : Option Nat}

/-- The claim that a settling call gives back. -/
def giveBack (s : Queue) (J : JobId) (group : Group) (e : Option Nat) : Queue :=
  settleListClaim (ackDel s group e) J e

/-- A call that ends one claim on a job. -/
structure Settles (x : Int) (s t : Queue) (J : JobId) (group : Group) (e : Option Nat) : Prop where
  calm : Calm x (giveBack s J group e) t
  idle : t.stateOf J ≠ some .active

theorem Calm.ackDel (h : Calm x s t) : Calm x (ackDel s group e) (ackDel t group e) := by
  unfold GlideMq.ackDel
  cases e with
  | none => exact h
  | some e =>
    refine ⟨⟨h.listActive, h.limit, h.jobs⟩, ?_, fun y hy => ?_, h.quotas⟩
    · simp only [xdel, xack, Stream.xdel, Stream.xack, Stream.setGroup, h.groups]
    · obtain ⟨hmem, hne⟩ := Stream.mem_entries_xdel.mp hy
      exact Stream.mem_entries_xdel.mpr ⟨h.entries y hmem, hne⟩

theorem decrListActive_eq (s : Queue) (J : JobId) :
    decrListActive s J =
      (s.sremListActiveIds J).setListActive
        (if 0 < s.listActive then s.listActive - 1 else s.listActive) := by
  unfold decrListActive
  simp only [sremListActiveIds_listActive]
  split <;> rfl

theorem Calm.setListActive (h : Calm x s t) (n : Int) : Calm x (s.setListActive n) (t.setListActive n) :=
  ⟨⟨rfl, h.limit, h.jobs⟩, h.groups, h.entries, h.quotas⟩

theorem Calm.decrListActive (h : Calm x s t) : Calm x (decrListActive s J) (decrListActive t J) := by
  have hsrem : Calm x (s.sremListActiveIds J) (t.sremListActiveIds J) :=
    ⟨⟨h.listActive, h.limit, h.jobs⟩, h.groups, h.entries, h.quotas⟩
  rw [decrListActive_eq, decrListActive_eq, h.listActive]
  exact hsrem.setListActive _

theorem Calm.settleListClaim (h : Calm x s t) :
    Calm x (settleListClaim s J e) (settleListClaim t J e) := by
  unfold GlideMq.settleListClaim
  split
  · have hdecr := h.decrListActive (J := J)
    exact ⟨⟨hdecr.listActive, hdecr.limit, hdecr.jobs⟩, hdecr.groups, hdecr.entries, hdecr.quotas⟩
  · exact h

theorem Calm.giveBack (h : Calm x s t) : Calm x (giveBack s J group e) (giveBack t J group e) :=
  h.ackDel.settleListClaim

theorem jobs_settleListClaim (s : Queue) (J : JobId) (e : Option Nat) :
    (settleListClaim s J e).jobs = s.jobs := by
  unfold settleListClaim
  split
  · rw [decrListActive_eq]; rfl
  · rfl

theorem stateOf_settleListClaim (s : Queue) (J K : JobId) (e : Option Nat) :
    (settleListClaim s J e).stateOf K = s.stateOf K := by
  unfold stateOf
  rw [jobs_settleListClaim]

theorem Calm.forgetListClaim (h : Calm x s t) : Calm x s (forgetListClaim t J e) := by
  unfold GlideMq.forgetListClaim
  split
  · exact h.quiet rfl
  · exact h

/-! ### Retention -/

theorem Calm.zremTerminal (h : Calm x s t) {k : TerminalSet} : Calm x s (t.zremTerminal k J) := by
  cases k <;> exact h.quiet rfl

theorem Calm.removeExcessJobs (h : Calm x s t) (k : TerminalSet) (ids : List JobId) :
    Calm x s (removeExcessJobs t k ids) := by
  have hunlink : Calm x s (ids.foldl Queue.unlinkJob t) :=
    h.foldl fun u K _ => (Calm.refl u).unlinkJob
  exact hunlink.foldl fun u K _ => (Calm.refl u).zremTerminal

theorem Calm.retainCount (h : Calm x s t) (k : TerminalSet) (n : Nat) :
    Calm x s (retainCount t k n) := by
  unfold GlideMq.retainCount
  simp only
  split
  · exact h.removeExcessJobs k _
  · exact h

theorem Calm.retainAge (h : Calm x s t) (k : TerminalSet) (age : Nat) (timestamp : Int) :
    Calm x s (retainAge t k age timestamp) := by
  unfold GlideMq.retainAge
  split
  · exact h.removeExcessJobs k _
  · exact h

theorem Calm.retain (h : Calm x s t) (k : TerminalSet) (r : Retention) (timestamp : Int) :
    Calm x s (retain t k J r timestamp) := by
  cases r with
  | keep => exact h
  | remove => exact h.unlinkJob
  | count n => exact h.retainCount k n
  | ageCount age n => exact (h.retainAge k age timestamp).retainCount k n

theorem retain_not_active (k : TerminalSet) {r : Retention} (timestamp : Int)
    (h : r ≠ .remove → s.stateOf J ≠ some .active) :
    (retain s k J r timestamp).stateOf J ≠ some .active := by
  by_cases hr : r = .remove
  · subst hr
    simp [retain, stateOf]
  · exact ((Calm.refl (x := 0) s).retain k r timestamp).not_active (h hr)

/-! ### Complete -/

theorem Calm.markCompleted (h : Calm x s t) {r : Retention} {y : Int} :
    Calm x s (markCompleted t J r y) := by
  unfold GlideMq.markCompleted
  split
  · exact h
  · have hadd : Calm x s (t.zaddCompleted J y) := h.quiet rfl
    exact hadd.hset fun _ => .idle nofun rfl rfl

theorem markCompleted_not_active {r : Retention} {y : Int} (hr : r ≠ .remove) :
    (markCompleted s J r y).stateOf J ≠ some .active := by
  simp [markCompleted, hr, setCompleted, stateOf]

theorem complete_settles {a : CompleteArgs} (hrev : (s.job a.jobId).revoked = false)
    (hst : s.stateOf a.jobId ≠ none) :
    Settles a.serverNow s (complete s a).1 a.jobId a.group a.entryId := by
  have hcur : (s.job a.jobId).state ≠ none := by rwa [stateOf_eq] at hst
  have hmark : Calm a.serverNow (ackDel s a.group a.entryId)
      (markCompleted (ackDel s a.group a.entryId) a.jobId a.retention a.timestamp) :=
    (Calm.refl _).markCompleted
  have hidle (hr : a.retention ≠ .remove) := @markCompleted_not_active (ackDel s a.group a.entryId)
    a.jobId a.retention a.timestamp hr
  unfold complete
  simp only [hrev, Bool.false_eq_true, if_false, hcur]
  generalize markCompleted (ackDel s a.group a.entryId) a.jobId a.retention a.timestamp = u at *
  have hrelease : Calm a.serverNow u (releaseGroupSlotAndPromote (markOrderingDone u a.jobId none none) a.jobId
      a.timestamp a.serverNow none false) := (Calm.refl u).markOrderingDone.releaseGroupSlotAndPromote
  generalize releaseGroupSlotAndPromote (markOrderingDone u a.jobId none none) a.jobId a.timestamp
    a.serverNow none false = v at *
  have hrecord (d : Int) : Calm a.serverNow u (if a.skipMetrics then v else recordCompleted v a.timestamp d) := by
    split
    · exact hrelease
    · exact hrelease.quiet rfl
  have htree (d : Int) (q : Option QueueName) (p : Option JobId) (ids : List JobId) :=
    (hrecord d).enqueueTreeParentNotifies (J := a.jobId) q p ids
  constructor
  · refine Calm.settleListClaim (Calm.completeParents (Calm.retain ?_ _ _ _) _ _ _)
    exact hmark.trans (htree _ _ _ _)
  · rw [stateOf_settleListClaim]
    refine ((Calm.refl (x := 0) _).completeParents _ _ _).not_active ?_
    exact retain_not_active _ _ fun hr => (htree _ _ _ _).not_active (hidle hr)

theorem Calm.markDoneByHints (h : Calm x s t) (a : CompleteNextArgs) :
    Calm x s (markDoneByHints t a) := by
  unfold GlideMq.markDoneByHints
  split
  · exact h.markOrderingDone
  split
  · exact h.markOrderingDone
  · exact h

theorem completeInChain_settles (s : Queue) (a : CompleteNextArgs) (cur : Job) :
    Settles a.serverNow s (completeInChain (ackDel s a.group a.entryId) a cur).1 a.jobId a.group
      a.entryId := by
  have hmark : Calm a.serverNow (ackDel s a.group a.entryId)
      (markCompleted (ackDel s a.group a.entryId) a.jobId a.retention a.timestamp) :=
    (Calm.refl _).markCompleted
  have hidle (hr : a.retention ≠ .remove) := @markCompleted_not_active (ackDel s a.group a.entryId)
    a.jobId a.retention a.timestamp hr
  unfold completeInChain
  simp only
  generalize markCompleted (ackDel s a.group a.entryId) a.jobId a.retention a.timestamp = u at *
  have hdone : Calm a.serverNow u (GlideMq.markDoneByHints u a) := (Calm.refl u).markDoneByHints a
  have hrelease : Calm a.serverNow u
      (if a.groupKey ≠ .absent then
        releaseGroupSlotAndPromote (GlideMq.markDoneByHints u a) a.jobId a.timestamp a.serverNow
          a.groupKey.value false
      else GlideMq.markDoneByHints u a) := by
    split
    · exact hdone.releaseGroupSlotAndPromote
    · exact hdone
  generalize (if a.groupKey ≠ .absent then _ else GlideMq.markDoneByHints u a) = v at *
  have hrecord (d : Int) : Calm a.serverNow u (if a.skipMetrics then v else recordCompleted v a.timestamp d) := by
    split
    · exact hrelease
    · exact hrelease.quiet rfl
  have htree (d : Int) (q : Option QueueName) (p : Option JobId) (ids : List JobId) :=
    (hrecord d).enqueueTreeParentNotifies (J := a.jobId) q p ids
  constructor
  · refine ((Calm.settleListClaim ?_).retain _ _ _).completeParents _ _ _
    exact hmark.trans (htree _ _ _ _)
  · refine ((Calm.refl (x := 0) _).completeParents _ _ _).not_active ?_
    refine retain_not_active _ _ fun hr => ?_
    rw [stateOf_settleListClaim]
    exact (htree _ _ _ _).not_active (hidle hr)

/-! ### Fail -/

theorem Calm.keepOrReleaseSlot {now serverNow : Int} (h : Calm serverNow s t) :
    Calm serverNow s (keepOrReleaseSlot t J now serverNow) := by
  unfold GlideMq.keepOrReleaseSlot
  split
  · exact h.hset fun _ => .touch rfl rfl rfl
  · exact h.releaseGroupSlotAndPromote

theorem settle_slot {now serverNow : Int} (h : Calm serverNow s t)
    (hidle : t.stateOf J ≠ some .active) :
    Calm serverNow (settleListClaim s J e)
        (settleListClaim (keepOrReleaseSlot t J now serverNow) J e) ∧
      (settleListClaim (keepOrReleaseSlot t J now serverNow) J e).stateOf J ≠ some .active := by
  refine ⟨h.keepOrReleaseSlot.settleListClaim, ?_⟩
  rw [stateOf_settleListClaim]
  exact (Calm.refl t).keepOrReleaseSlot.not_active hidle

theorem failRetry_settles (s : Queue) (a : FailArgs) (requeueOnly : Bool) :
    Calm a.serverNow (settleListClaim s a.jobId a.entryId) (failRetry s a requeueOnly) ∧
      (failRetry s a requeueOnly).stateOf a.jobId ≠ some .active := by
  unfold failRetry
  simp only
  have hfallback : Calm a.serverNow s
      (if ¬ requeueOnly ∧ (s.job a.jobId).opts.fallbacks then
        s.hset a.jobId fun j => { j with fallbackIndex := j.fallbackIndex + 1 }
      else s) := by
    split
    · exact (Calm.refl s).hset fun _ => .touch rfl rfl rfl
    · exact .refl s
  generalize (if ¬ requeueOnly ∧ (s.job a.jobId).opts.fallbacks then _ else s) = u at *
  have hadd (y : Int) : Calm a.serverNow s (u.zaddScheduled a.jobId y) := hfallback.quiet rfl
  exact settle_slot ((hadd _).hset fun _ => .idle nofun rfl rfl) (by simp [stateOf])

theorem Calm.markFailed (h : Calm x s t) (a : FailArgs) : Calm x s (markFailed t a) := by
  unfold GlideMq.markFailed
  split
  · exact h
  · have hadd : Calm x s (t.zaddFailed a.jobId a.timestamp) := h.quiet rfl
    exact hadd.hset fun _ => .idle nofun rfl rfl

theorem failFinal_settles (s : Queue) (a : FailArgs) (processedOn : Int) :
    Calm a.serverNow (settleListClaim s a.jobId a.entryId) (failFinal s a processedOn) ∧
      (failFinal s a processedOn).stateOf a.jobId ≠ some .active := by
  have hmark : Calm a.serverNow s (markFailed s a) := (Calm.refl s).markFailed a
  have hidle (hr : a.retention ≠ .remove) : (markFailed s a).stateOf a.jobId ≠ some .active := by
    simp [markFailed, hr, stateOf]
  unfold failFinal
  simp only
  generalize markFailed s a = u at *
  have hrelease : Calm a.serverNow u (releaseGroupSlotAndPromote (markOrderingDone u a.jobId none none) a.jobId
      a.timestamp a.serverNow none false) := (Calm.refl u).markOrderingDone.releaseGroupSlotAndPromote
  generalize releaseGroupSlotAndPromote (markOrderingDone u a.jobId none none) a.jobId a.timestamp
    a.serverNow none false = v at *
  have hrecord : Calm a.serverNow u
      (if a.skipMetrics then v else recordFailed v a.timestamp (a.timestamp - processedOn)) := by
    split
    · exact hrelease
    · exact hrelease.quiet rfl
  constructor
  · exact ((hmark.trans hrecord).retain _ _ _).settleListClaim
  · rw [stateOf_settleListClaim]
    exact retain_not_active _ _ fun hr => hrecord.not_active (hidle hr)

theorem failJobCore_settles {a : FailArgs} (hj : s.jobs a.jobId ≠ none) (requeueOnly : Bool) :
    Settles a.serverNow s (failJobCore s a requeueOnly).1 a.jobId a.group a.entryId := by
  have hj' : (ackDel s a.group a.entryId).jobs a.jobId ≠ none := by
    unfold ackDel
    split <;> exact hj
  unfold failJobCore
  simp only [if_neg hj']
  have hcount : Calm a.serverNow (ackDel s a.group a.entryId)
      (if requeueOnly then ackDel s a.group a.entryId
      else (ackDel s a.group a.entryId).hset a.jobId fun j =>
        { j with attemptsMade := j.attemptsMade + 1 }) := by
    split
    · exact .refl _
    · exact (Calm.refl _).hset fun _ => .touch rfl rfl rfl
  generalize (if requeueOnly then ackDel s a.group a.entryId else _) = u at *
  split
  · obtain ⟨hcalm, hidle⟩ := failRetry_settles u a requeueOnly
    exact ⟨hcount.settleListClaim.trans hcalm, hidle⟩
  · obtain ⟨hcalm, hidle⟩ := failFinal_settles u a ((s.job a.jobId).processedOn.getD a.timestamp)
    exact ⟨hcount.settleListClaim.trans hcalm, hidle⟩

/-! ### Deferring and postponing -/

theorem Calm.requeue (h : Calm x s t) (a : DeferArgs) : Calm x s (requeue t a) := by
  unfold GlideMq.requeue
  simp only
  repeat' split
  all_goals first
    | exact h.xaddJob
    | exact h.quiet rfl

/-- The claim that is given back, before what it was charged is. -/
def putBack (s : Queue) (a : DeferArgs) : Queue :=
  (requeue (giveBack s a.jobId a.group a.entryId) a).setState a.jobId .waiting

theorem putBack_settles (s : Queue) (a : DeferArgs) :
    Settles x s (putBack s a) a.jobId a.group a.entryId where
  calm := ((Calm.refl _).requeue a).setState nofun
  idle := by simp [putBack, setState, stateOf]

theorem deferActive_eq (s : Queue) (a : DeferArgs) :
    (deferActive s a).1 =
      if s.jobs a.jobId = none then giveBack s a.jobId a.group a.entryId
      else if a.undoGroupClaim then undoClaim (putBack s a) a.jobId
      else putBack s a := by
  have hjobs : (giveBack s a.jobId a.group a.entryId).jobs = s.jobs := by
    unfold giveBack
    rw [jobs_settleListClaim]
    unfold GlideMq.ackDel
    cases a.entryId <;> rfl
  unfold deferActive putBack
  simp only
  rw [← hjobs]
  unfold giveBack
  split
  · rfl
  · dsimp only

theorem moveActiveToDelayed_settles {a : PostponeArgs} (hst : s.stateOf a.jobId = some .active)
    (delayedUntil : Int) :
    Settles a.serverNow s (moveActiveToDelayed s a delayedUntil).1 a.jobId a.group a.entryId := by
  have hj : s.jobs a.jobId ≠ none := jobs_ne_none_of_stateOf hst
  unfold moveActiveToDelayed
  simp only [if_neg hj, hst, ne_eq, not_true_eq_false, if_false]
  generalize hu : GlideMq.ackDel s a.group a.entryId = u
  have hadd (y : Int) : Calm a.serverNow u (u.zaddScheduled a.jobId y) := (Calm.refl u).quiet rfl
  have hdelayed (y : Int) :
      Calm a.serverNow u ((u.zaddScheduled a.jobId y).setState a.jobId .delayed) :=
    (hadd y).setState nofun
  have hset (y d : Int) : Calm a.serverNow u
      (((u.zaddScheduled a.jobId y).setState a.jobId .delayed).setDelay a.jobId d) :=
    (hdelayed y).hset fun _ => .touch rfl rfl rfl
  have hidle (y d : Int) :
      (((u.zaddScheduled a.jobId y).setState a.jobId .delayed).setDelay a.jobId d).stateOf a.jobId ≠
        some .active := by
    simp [setDelay, setState, stateOf]
  constructor
  · unfold giveBack
    rw [hu]
    exact (hset _ _).settleListClaim.keepOrReleaseSlot
  · refine (Calm.refl _).keepOrReleaseSlot.not_active ?_
    rw [stateOf_settleListClaim]
    exact hidle _ _

theorem moveToWaitingChildren_settles {a : PostponeArgs} (hst : s.stateOf a.jobId = some .active) :
    Settles a.serverNow s (moveToWaitingChildren s a).1 a.jobId a.group a.entryId := by
  suffices h : ∃ u, Calm a.serverNow (GlideMq.ackDel s a.group a.entryId) u ∧
      u.stateOf a.jobId ≠ some .active ∧
      (moveToWaitingChildren s a).1 = GlideMq.settleListClaim u a.jobId a.entryId by
    obtain ⟨u, hcalm, hidle, ht⟩ := h
    rw [ht]
    refine ⟨hcalm.settleListClaim, ?_⟩
    rwa [stateOf_settleListClaim]
  unfold moveToWaitingChildren
  simp only [hst, reduceCtorEq, ne_eq, not_true_eq_false, if_false]
  generalize GlideMq.ackDel s a.group a.entryId = u
  have hset : Calm a.serverNow u (u.setState a.jobId .waitingChildren) := (Calm.refl u).setState (by simp)
  have hidle : (u.setState a.jobId .waitingChildren).stateOf a.jobId ≠ some .active := by
    simp [setState, stateOf]
  generalize u.setState a.jobId .waitingChildren = v at *
  have hcount : Calm a.serverNow v (GlideMq.countEarlyDeps
      (GlideMq.keepOrReleaseSlot v a.jobId a.now a.serverNow) a.jobId).1 :=
    (Calm.refl v).keepOrReleaseSlot.countEarlyDeps
  generalize (GlideMq.countEarlyDeps
    (GlideMq.keepOrReleaseSlot v a.jobId a.now a.serverNow) a.jobId).1 = w at *
  split
  · have hwait : Calm a.serverNow v (w.setState a.jobId .waiting) := hcount.setState (by simp)
    exact ⟨_, hset.trans hwait.xaddJob, hwait.xaddJob.not_active hidle, rfl⟩
  · exact ⟨w, hset.trans hcount, hcount.not_active hidle, rfl⟩

theorem suspend_settles {a : PostponeArgs} (hst : s.stateOf a.jobId = some .active) (timeout : Int) :
    Settles a.serverNow s (suspend s a timeout).1 a.jobId a.group a.entryId := by
  unfold suspend
  simp only [hst, reduceCtorEq, ne_eq, not_true_eq_false, if_false]
  have hset : Calm a.serverNow (GlideMq.ackDel s a.group a.entryId)
      ((GlideMq.ackDel s a.group a.entryId).setState a.jobId .suspended) :=
    (Calm.refl _).setState nofun
  have hadd (y : Int) : Calm a.serverNow (GlideMq.ackDel s a.group a.entryId)
      (((GlideMq.ackDel s a.group a.entryId).setState a.jobId .suspended).zaddSuspended a.jobId y) :=
    hset.quiet rfl
  obtain ⟨hcalm, hidle⟩ := @settle_slot _ _ a.jobId a.entryId a.now a.serverNow
    (hadd (if 0 < timeout then a.now + timeout else noDeadline)) (by simp [setState, stateOf])
  exact ⟨hcalm, hidle⟩

/-! ### Pausing a group -/

theorem Calm.park (h : Calm x s t) {gk : GroupKey} {y : Int} : Calm x s (park t gk J y) := by
  have hadd : Calm x s (t.zaddGroupq gk J y) := h.quiet rfl
  exact hadd.setState nofun

theorem park_not_active (s : Queue) (gk : GroupKey) (J : JobId) (y : Int) :
    (park s gk J y).stateOf J ≠ some .active := by
  simp [park, setState, stateOf]

theorem Calm.dropReturning (h : Calm x s t) {gk : GroupKey} : Calm x s (dropReturning t J gk) :=
  h.clearRetainedSlot.quiet rfl

theorem Calm.requeueInGroup (h : Calm x s t) {gk : GroupKey} {front keepSlot : Bool} :
    Calm x s (requeueInGroup t gk J front keepSlot) ∧
      (requeueInGroup t gk J front keepSlot).stateOf J ≠ some .active := by
  unfold GlideMq.requeueInGroup
  simp only
  have hidle := park_not_active t gk J (requeueScore t gk J front)
  have hpark : Calm x s (GlideMq.park t gk J (requeueScore t gk J front)) := h.park
  generalize GlideMq.park t gk J (requeueScore t gk J front) = u at *
  split
  · have htouch : Calm x u (u.hset J ({ · with retainedSlot := true })) :=
      (Calm.refl u).hset fun _ => .touch rfl rfl rfl
    exact ⟨hpark.trans (htouch.quiet rfl), (htouch.quiet rfl).not_active hidle⟩
  · exact ⟨hpark.dropReturning, (Calm.refl (x := x) u).dropReturning.not_active hidle⟩

theorem Calm.failRateLimited (h : Calm x s t) (timestamp : Int) :
    Calm x s (failRateLimited t J timestamp) ∧
      (failRateLimited t J timestamp).stateOf J ≠ some .active := by
  unfold GlideMq.failRateLimited
  simp only
  generalize hu : (t.zaddFailed J timestamp).hset J _ = u
  have hset : Calm x s u := hu ▸ h.zaddFailed.hset fun _ => .idle nofun rfl rfl
  have hidle : u.stateOf J ≠ some .active := by
    rw [← hu]
    simp [stateOf]
  have hrecord (d : Int) : Calm x u (recordFailed (GlideMq.advanceRepeatAfterComplete u J timestamp)
      timestamp d) := (Calm.refl u).advanceRepeatAfterComplete.quiet rfl
  exact ⟨hset.trans (hrecord _).markOrderingDone, (hrecord _).markOrderingDone.not_active hidle⟩

theorem rateLimitGroup_settles {a : RateLimitArgs} {gk : GroupKey}
    (hst : s.stateOf a.jobId = some .active) (hgk : (s.job a.jobId).groupKey = some gk) :
    Settles x s (rateLimitGroup s a).1 a.jobId a.group a.entryId := by
  suffices h : Calm x (giveBack s a.jobId a.group a.entryId) (rateLimitGroup s a).1 ∧
      (rateLimitGroup s a).1.stateOf a.jobId ≠ some .active from ⟨h.1, h.2⟩
  unfold rateLimitGroup giveBack
  simp only [hst, hgk, ne_eq, not_true_eq_false, if_false]
  generalize GlideMq.settleListClaim (GlideMq.ackDel s a.group a.entryId) a.jobId a.entryId = u
  have hslot (keepSlot : Bool) : Calm x u
      (if keepSlot = true then u
      else (GlideMq.dropReturning u a.jobId gk).hgroup gk GroupHash.decrActive) := by
    split
    · exact .refl u
    · have hdrop : Calm x u (GlideMq.dropReturning u a.jobId gk) := (Calm.refl u).dropReturning
      exact hdrop.hgroup fun _ => rfl
  split
  · obtain ⟨hcalm, hidle⟩ := (hslot _).requeueInGroup (J := a.jobId)
    exact ⟨hcalm.quiet rfl, hidle⟩
  · obtain ⟨hcalm, hidle⟩ := (hslot _).failRateLimited (J := a.jobId) a.timestamp
    exact ⟨hcalm.quiet rfl, hidle⟩

end

end GlideMq
