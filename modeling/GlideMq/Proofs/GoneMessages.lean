import GlideMq.Model.BroadcastCalls
import GlideMq.Proofs.CalmCalls
import GlideMq.Proofs.GoneJobs
import GlideMq.Proofs.GroupRuns

/-!
# Removed messages stay gone

In broadcast mode only a trim deletes a hash, and no call makes one: what a subscription does about a
message that is gone touches its claims and its own hash. So along every run, in either mode, a hash that
was deleted stays gone, unless a promotion finds a due member of its job.
-/

namespace GlideMq

open Queue Redis

/-! ## The same hashes -/

/-- The same jobs are there. -/
structure SameHashes (s t : Queue) : Prop where
  none_iff : ∀ K, t.jobs K = none ↔ s.jobs K = none

namespace SameHashes

variable {s t u : Queue} {J : JobId}

theorem refl (s : Queue) : SameHashes s s := ⟨fun _ => Iff.rfl⟩

theorem trans (h : SameHashes s t) (hu : SameHashes t u) : SameHashes s u :=
  ⟨fun K => (hu.none_iff K).trans (h.none_iff K)⟩

theorem jobs (h : SameHashes s t) (hu : u.jobs = t.jobs) : SameHashes s u :=
  ⟨fun K => by rw [hu]; exact h.none_iff K⟩

theorem frame (h : SameHashes s t) (hu : u.frame = t.frame) : SameHashes s u :=
  h.trans ⟨frame_jobs_none hu⟩

theorem parents (h : SameHashes s t) (hu : u.parentFrame = t.parentFrame) : SameHashes s u :=
  h.trans ⟨parentFrame_jobs_none hu⟩

theorem there (h : SameHashes s t) (hj : s.jobs J ≠ none) : t.jobs J ≠ none := (h.none_iff J).not.mpr hj

theorem hset (h : SameHashes s t) (hj : s.jobs J ≠ none) {f : Job → Job} : SameHashes s (t.hset J f) := by
  refine ⟨fun K => ?_⟩
  rw [hset_jobs, Function.update_apply]
  split
  · rename_i hK
    rw [hK]
    simp [hj]
  · exact h.none_iff K

theorem setState (h : SameHashes s t) (hj : s.jobs J ≠ none) (st : JobState) : SameHashes s (t.setState J st) :=
  h.hset hj

theorem ackOnly (h : SameHashes s t) (group : Group) (e : Option Nat) : SameHashes s (ackOnly t group e) := by
  cases e <;> exact h.jobs rfl

theorem settleListClaim (h : SameHashes s t) (J : JobId) (e : Option Nat) : SameHashes s (settleListClaim t J e) :=
  h.jobs (jobs_settleListClaim t J e)

theorem forgetListClaim (h : SameHashes s t) (J : JobId) (e : Option Nat) : SameHashes s (forgetListClaim t J e) := by
  unfold GlideMq.forgetListClaim
  split
  · exact h.jobs rfl
  · exact h

theorem keepOrReleaseSlot (h : SameHashes s t) (hj : s.jobs J ≠ none) (now serverNow : Int) :
    SameHashes s (keepOrReleaseSlot t J now serverNow) := by
  unfold GlideMq.keepOrReleaseSlot
  split
  · exact h.hset hj
  · exact h.frame (frame_releaseGroupSlotAndPromote ..)

theorem park (h : SameHashes s t) (hj : s.jobs J ≠ none) (gk : GroupKey) (score : Int) :
    SameHashes s (park t gk J score) :=
  (h.jobs (u := t.zaddGroupq gk J score) rfl).setState hj _

theorem markCompleted (h : SameHashes s t) (hj : s.jobs J ≠ none) (timestamp : Int) :
    SameHashes s (markCompleted t J .keep timestamp) := by
  unfold GlideMq.markCompleted
  rw [if_neg Retention.noConfusion]
  refine .hset ?_ hj
  exact h.jobs rfl

theorem recordCompleted (h : SameHashes s t) (skip : Bool) (timestamp duration : Int) :
    SameHashes s (if skip then t else recordCompleted t timestamp duration) := by
  split
  · exact h
  · exact h.jobs rfl

theorem ite {p : Prop} [Decidable p] (ht : SameHashes s t) (hu : SameHashes s u) :
    SameHashes s (if p then t else u) := by
  split
  · exact ht
  · exact hu

theorem dropReturning (h : SameHashes s t) (gk : GroupKey) : SameHashes s (dropReturning t J gk) :=
  (h.frame (frame_clearRetainedSlot t J)).jobs rfl

theorem requeueInGroup (h : SameHashes s t) (hj : s.jobs J ≠ none) (gk : GroupKey) (front keepSlot : Bool) :
    SameHashes s (requeueInGroup t gk J front keepSlot) := by
  have hparked := h.park hj gk (requeueScore t gk J front)
  have hkept := hparked.hset hj (f := ({ · with retainedSlot := true }))
  unfold GlideMq.requeueInGroup
  exact .ite (hkept.jobs rfl) (hparked.dropReturning gk)

theorem failRateLimited (h : SameHashes s t) (hj : s.jobs J ≠ none) (timestamp : Int) :
    SameHashes s (failRateLimited t J timestamp) := by
  unfold GlideMq.failRateLimited
  simp only
  generalize hu : (t.zaddFailed J timestamp).hset J _ = u
  have hfailed : SameHashes s u := by
    rw [← hu]
    refine .hset ?_ hj
    exact h.jobs rfl
  refine .frame ?_ (frame_markOrderingDone ..)
  exact (hfailed.frame (frame_advanceRepeatAfterComplete u J timestamp)).jobs rfl

theorem pauseGroup (h : SameHashes s t) (gk : GroupKey) (resumeAt : Int) (extendMax : Bool) :
    SameHashes s (pauseGroup t gk resumeAt extendMax).1 := h.jobs rfl

theorem activate (h : SameHashes s t) (hj : s.jobs J ≠ none) (now : Int) (listSourced : Bool) :
    SameHashes s (activate t J now listSourced) := h.hset hj

end SameHashes

section

variable {s t : Queue} {J : JobId}

theorem jobs_ne_none_of_state (h : (s.job J).state ≠ none) : s.jobs J ≠ none := by
  intro hnone
  simp [Queue.job, hnone] at h

/-! ## Settling -/

theorem completeInChain_sameHashes (h : SameHashes s t) {a : CompleteNextArgs} (hj : s.jobs a.jobId ≠ none)
    (cur : Job) : SameHashes s (completeInChain t { a with retention := .keep } cur).1 := by
  have hmarked := h.markCompleted hj a.timestamp
  have hdone : SameHashes s (markDoneByHints (markCompleted t a.jobId .keep a.timestamp)
      { a with retention := .keep }) := by
    unfold markDoneByHints
    split
    · exact hmarked.frame (frame_markOrderingDone ..)
    split
    · exact hmarked.frame (frame_markOrderingDone ..)
    · exact hmarked
  unfold completeInChain
  simp only
  refine .parents (.settleListClaim (.parents (.recordCompleted ?_ _ _ _)
    (parentFrame_enqueueTreeParentNotifies ..)) _ _) (parentFrame_completeParents ..)
  split
  · exact hdone.frame (frame_releaseGroupSlotAndPromote ..)
  · exact hdone

theorem completeBroadcast_sameHashes (s : Queue) (a : CompleteArgs) : SameHashes s (completeBroadcast s a).1 := by
  have hack := (SameHashes.refl s).ackOnly a.group a.entryId
  unfold completeBroadcast
  simp only
  split
  · exact .refl s
  split
  · exact hack.forgetListClaim _ _
  rename_i hstate
  have hj := jobs_ne_none_of_state hstate
  have hreleased := ((hack.markCompleted hj a.timestamp).frame (frame_markOrderingDone _ a.jobId none none)).frame
    (frame_releaseGroupSlotAndPromote _ a.jobId a.timestamp a.serverNow none false)
  exact .settleListClaim (.parents (.parents (hreleased.recordCompleted _ _ _)
    (parentFrame_enqueueTreeParentNotifies ..)) (parentFrame_completeParents ..)) _ _

theorem completeAndFetchNextBroadcast_sameHashes (s : Queue) (a : CompleteNextArgs) :
    SameHashes s (completeAndFetchNextBroadcast s a).1 := by
  have hbegin : SameHashes s (beginChain s) := .jobs (.refl s) rfl
  have hack := hbegin.ackOnly a.group a.entryId
  unfold completeAndFetchNextBroadcast
  simp only
  split
  · exact .refl s
  split
  · exact (hack.forgetListClaim a.jobId a.entryId).jobs rfl
  · rename_i hstate
    exact (completeInChain_sameHashes hack (jobs_ne_none_of_state hstate) _).jobs rfl

theorem failRetryBroadcast_sameHashes (h : SameHashes s t) {a : FailArgs} (hj : s.jobs a.jobId ≠ none)
    (requeueOnly : Bool) : SameHashes s (failRetryBroadcast t a requeueOnly) := by
  unfold failRetryBroadcast
  simp only
  generalize hu : (if ¬ requeueOnly = true ∧ (t.job a.jobId).opts.fallbacks = true then _ else t) = u
  have hfallback : SameHashes s u := by
    rw [← hu]
    split
    · exact h.hset hj
    · exact h
  generalize hv : (u.zaddScheduled _ _).hset a.jobId _ = v
  have hdelayed : SameHashes s v := by
    rw [← hv]
    refine .hset ?_ hj
    exact hfallback.jobs rfl
  refine .settleListClaim ?_ _ _
  split
  · exact hdelayed.hset hj
  · exact hdelayed.frame (frame_releaseGroupSlotAndPromote ..)

theorem failFinal_sameHashes (h : SameHashes s t) {a : FailArgs} (hj : s.jobs a.jobId ≠ none) (processedOn : Int) :
    SameHashes s (failFinal t { a with retention := .keep } processedOn) := by
  have hmarked : SameHashes s (markFailed t { a with retention := .keep }) := by
    unfold markFailed
    rw [if_neg Retention.noConfusion]
    refine .hset ?_ hj
    exact h.jobs rfl
  have hreleased := (hmarked.frame (frame_markOrderingDone _ a.jobId none none)).frame
    (frame_releaseGroupSlotAndPromote _ a.jobId a.timestamp a.serverNow none false)
  unfold failFinal
  simp only
  refine .settleListClaim ?_ _ _
  split
  · exact hreleased
  · exact hreleased.jobs rfl

theorem failStalled_sameHashes (h : SameHashes s t) (hj : s.jobs J ≠ none) (timestamp serverNow : Int) :
    SameHashes s (failStalled t J timestamp serverNow) := by
  have hfailed : SameHashes s ((t.zaddFailed J timestamp).setFailed J stalledReason timestamp) := by
    refine .hset ?_ hj
    exact h.jobs rfl
  have hended := (hfailed.frame (frame_advanceRepeatAfterComplete _ J timestamp)).frame
    (frame_markOrderingDone _ J none none)
  have hreleased := hended.frame (frame_releaseGroupSlotAndPromote _ J timestamp serverNow none false)
  unfold failStalled
  exact hreleased.jobs rfl

/-! ## Activation -/

theorem claimInGroupBroadcast_sameHashes (s : Queue) {a : MoveArgs} (hj : s.jobs a.jobId ≠ none) (gk : GroupKey) :
    SameHashes s (claimInGroupBroadcast s a gk).1 := by
  unfold claimInGroupBroadcast
  simp only
  generalize hr : (if 0 < (s.job a.jobId).orderingSeq then _ else (s, 0)) = r
  have hskip : SameHashes s r.1 := by
    rw [← hr]
    split
    · exact .frame (.refl s) (frame_skipToNext ..)
    · exact .refl s
  have hack := hskip.ackOnly a.group a.entryId
  have hrefill : SameHashes s (refill r.1 gk a.serverNow).1 := hskip.frame (frame_refill ..)
  split
  · exact hack.park hj _ _
  split
  · exact hack.park hj _ _
  split
  · have hthere := (hrefill.ackOnly a.group a.entryId).there hj
    exact .frame (.frame (hrefill.ackOnly a.group a.entryId) (frame_failOversize hthere gk a.timestamp))
      (frame_closeOrderingHoleAndPromote ..)
  split
  · exact .jobs ((hrefill.ackOnly a.group a.entryId).park hj _ _) rfl
  · refine .activate ?_ hj _ _
    have hcharged : SameHashes s (chargeGroup (refill r.1 gk a.serverNow).1 gk ((s.job a.jobId).cost.getD 1000)
        a.timestamp) := hrefill.jobs rfl
    split <;> split <;> exact hcharged.jobs rfl

theorem moveToActiveClaimBroadcast_sameHashes (s : Queue) (a : MoveArgs) :
    SameHashes s (moveToActiveClaimBroadcast s a).1 := by
  unfold moveToActiveClaimBroadcast
  simp only
  split
  · exact .refl s
  rename_i job hjob
  have hj : s.jobs a.jobId ≠ none := by rw [hjob]; exact Option.some_ne_none job
  split
  · exact .refl s
  split
  · exact .refl s
  split
  · exact .ackOnly (.frame (.refl s) (frame_expireJob hj ..)) _ _
  split
  · exact claimInGroupBroadcast_sameHashes s hj _
  · exact .activate (.refl s) hj _ _

/-! ## Postponing -/

theorem moveActiveToDelayedBroadcast_sameHashes (s : Queue) (a : PostponeArgs) (delayedUntil : Int) :
    SameHashes s (moveActiveToDelayedBroadcast s a delayedUntil).1 := by
  unfold moveActiveToDelayedBroadcast
  simp only
  split
  · exact .refl s
  rename_i hj
  split
  · exact .refl s
  · refine .keepOrReleaseSlot (.settleListClaim (.hset (.setState ?_ hj _) hj) _ _) hj _ _
    exact ((SameHashes.refl s).ackOnly a.group a.entryId).jobs rfl

theorem moveToWaitingChildrenBroadcast_sameHashes (s : Queue) (a : PostponeArgs) :
    SameHashes s (moveToWaitingChildrenBroadcast s a).1 := by
  unfold moveToWaitingChildrenBroadcast
  simp only
  split
  · exact .refl s
  rename_i hstate
  have hj := jobs_ne_none_of_state (stateOf_eq s a.jobId ▸ hstate)
  split
  · exact .refl s
  have hwaiting := ((SameHashes.refl s).ackOnly a.group a.entryId).setState hj .waitingChildren
  have hcounted := (hwaiting.keepOrReleaseSlot hj a.now a.serverNow).parents (parentFrame_countEarlyDeps _ a.jobId)
  split
  · refine .settleListClaim ?_ _ _
    exact (hcounted.setState hj .waiting).jobs rfl
  · exact hcounted.settleListClaim _ _

theorem suspendBroadcast_sameHashes (s : Queue) (a : PostponeArgs) (timeout : Int) :
    SameHashes s (suspendBroadcast s a timeout).1 := by
  unfold suspendBroadcast
  simp only
  split
  · exact .refl s
  rename_i hstate
  have hj := jobs_ne_none_of_state (stateOf_eq s a.jobId ▸ hstate)
  split
  · exact .refl s
  · have hsuspended := ((SameHashes.refl s).ackOnly a.group a.entryId).setState hj .suspended
    refine .settleListClaim (.keepOrReleaseSlot ?_ hj _ _) _ _
    exact hsuspended.jobs rfl

theorem rateLimitGroupBroadcast_sameHashes (s : Queue) (a : RateLimitArgs) :
    SameHashes s (rateLimitGroupBroadcast s a).1 := by
  unfold rateLimitGroupBroadcast
  simp only
  split
  · exact .refl s
  rename_i hactive
  have hj : s.jobs a.jobId ≠ none := jobs_ne_none_of_stateOf (not_not.mp hactive)
  split
  · exact .refl s
  have hclaim := ((SameHashes.refl s).ackOnly a.group a.entryId).settleListClaim a.jobId a.entryId
  generalize settleListClaim (ackOnly s a.group a.entryId) a.jobId a.entryId = u at *
  rename_i gk _
  have hslot (p : Prop) [Decidable p] :
      SameHashes s (if p then u else (dropReturning u a.jobId gk).hgroup gk GroupHash.decrActive) := by
    refine .ite hclaim ?_
    exact (hclaim.dropReturning gk).jobs rfl
  refine .pauseGroup (.ite ?_ ?_) _ _ _
  · exact .requeueInGroup (hslot _) hj _ _ _
  · exact .failRateLimited (hslot _) hj _

end

/-! ## Subscriptions -/

/-- The hash of a job is gone, with all its fields. -/
structure Fanout.Gone (f : Fanout) (J : JobId) : Prop where
  job : f.queue.jobs J = none
  marks : f.marks J = {}

/-- No hash is made. -/
structure Fanout.MakesNone (f f' : Fanout) : Prop where
  gone : ∀ K, f.Gone K → f'.Gone K

namespace Fanout.MakesNone

variable {f f' f'' : Fanout} {t : Queue}

theorem refl (f : Fanout) : f.MakesNone f := ⟨fun _ h => h⟩

theorem trans (h : f.MakesNone f') (h' : f'.MakesNone f'') : f.MakesNone f'' :=
  ⟨fun K hK => h'.gone K (h.gone K hK)⟩

theorem setQueue (h : SameHashes f.queue t) : f.MakesNone (f.setQueue t) :=
  ⟨fun K hK => ⟨(h.none_iff K).mpr hK.job, hK.marks⟩⟩

theorem hsetSub {J : JobId} {group : Group} {w : SubHash → SubHash} : f.MakesNone (f.hsetSub J group w) :=
  ⟨fun _ hK => ⟨hK.job, hK.marks⟩⟩

theorem ite {p : Prop} [Decidable p] (h : f.MakesNone f') (h' : f.MakesNone f'') :
    f.MakesNone (if p then f' else f'') := by
  split
  · exact h
  · exact h'

theorem foldl {α : Type} {step : Fanout → α → Fanout} (h : ∀ (f : Fanout) x, f.MakesNone (step f x))
    (l : List α) (f : Fanout) : f.MakesNone (l.foldl step f) := by
  induction l generalizing f with
  | nil => exact refl f
  | cons x l ih => exact (h f x).trans (ih _)

end Fanout.MakesNone

section

variable (f : Fanout)

theorem failBroadcast_makesNone (a : FailArgs) (requeueOnly : Bool) :
    f.MakesNone (failBroadcast f a requeueOnly).1 := by
  have hack := (SameHashes.refl f.queue).ackOnly a.group a.entryId
  unfold failBroadcast
  simp only
  split
  · exact .setQueue (hack.forgetListClaim _ _)
  rename_i hthere
  have hj : f.queue.jobs a.jobId ≠ none := (hack.none_iff a.jobId).not.mp hthere
  generalize hf' : (if requeueOnly = true then f else f.hsetSub a.jobId a.group _) = f'
  have hsub : f.MakesNone f' := by
    rw [← hf']
    exact .ite (.refl f) .hsetSub
  have hqueue : f'.queue = f.queue := by
    rw [← hf']
    split <;> rfl
  split
  · refine hsub.trans (.setQueue ?_)
    rw [hqueue]
    exact failRetryBroadcast_sameHashes hack hj requeueOnly
  · refine hsub.trans (.setQueue ?_)
    rw [hqueue]
    exact failFinal_sameHashes hack hj _

theorem failAndFetchNextBroadcast_makesNone (a : FailArgs) : f.MakesNone (failAndFetchNextBroadcast f a).1 := by
  have hbegin : f.MakesNone (f.setQueue (beginChain f.queue)) := .setQueue (.jobs (.refl _) rfl)
  exact (hbegin.trans (failBroadcast_makesNone _ a false)).trans (.setQueue (.jobs (.refl _) rfl))

theorem moveToActiveBroadcast_makesNone (a : MoveArgs) : f.MakesNone (moveToActiveBroadcast f a).1 := by
  have hclaim := moveToActiveClaimBroadcast_sameHashes f.queue a
  have hnote (t : Queue) (result : ActivationResult) : (noteListClaim t a.jobId result).jobs = t.jobs := by
    unfold noteListClaim
    split
    · rfl
    split <;> rfl
  unfold moveToActiveBroadcast
  simp only
  have hset : f.MakesNone (f.setQueue (if a.entryId = none then
      noteListClaim (moveToActiveClaimBroadcast f.queue a).1 a.jobId (moveToActiveClaimBroadcast f.queue a).2
      else (moveToActiveClaimBroadcast f.queue a).1)) := by
    refine .setQueue ?_
    split
    · exact hclaim.jobs (hnote _ _)
    · exact hclaim
  split
  · refine hset.trans ?_
    dsimp only
    exact .hsetSub
  · exact hset

theorem deferActiveBroadcast_makesNone (a : DeferArgs) (consumer : String) :
    f.MakesNone (deferActiveBroadcast f a consumer).1 := by
  have hack := ((SameHashes.refl f.queue).ackOnly a.group a.entryId).settleListClaim a.jobId a.entryId
  unfold deferActiveBroadcast
  simp only
  split
  · exact .ite .hsetSub (.refl f)
  split
  · exact .setQueue hack
  rename_i hthere
  have hj : f.queue.jobs a.jobId ≠ none := (hack.none_iff a.jobId).not.mp hthere
  refine .setQueue ?_
  have hwaiting := (hack.jobs (u := (settleListClaim (ackOnly f.queue a.group a.entryId) a.jobId
    a.entryId).xaddJob a.jobId) rfl).setState hj .waiting
  split
  · exact hwaiting.jobs (jobs_undoClaim _ _)
  · exact hwaiting

theorem recoverBroadcastClaim_makesNone (group : Group) (consumer : String) (e : Nat) :
    f.MakesNone (recoverBroadcastClaim group consumer f e) := by
  unfold recoverBroadcastClaim
  split
  · split
    · exact .hsetSub
    · exact .setQueue (.jobs (.refl _) rfl)
  · exact .refl f

theorem applyStalledLogicBroadcast_makesNone {J : JobId} (hj : f.queue.jobs J ≠ none) (a : ReclaimArgs) :
    f.MakesNone (applyStalledLogicBroadcast f J a).1 ∧
      (applyStalledLogicBroadcast f J a).1.queue.jobs J ≠ none := by
  have hfailed := failStalled_sameHashes (.refl f.queue) hj a.timestamp a.serverNow
  have hsub (w : SubHash → SubHash) : f.MakesNone (f.hsetSub J a.group w) := .hsetSub
  unfold applyStalledLogicBroadcast
  split
  · exact ⟨hsub ({ · with handedBack := false }), hj⟩
  have hcounted := hsub fun h => { h with stalledCount := h.stalledCount + 1 }
  simp only
  split
  · exact ⟨hcounted.trans (.setQueue hfailed), hfailed.there hj⟩
  · exact ⟨hcounted, hj⟩

theorem reclaimEntryBroadcast_makesNone (a : ReclaimArgs) (redispatch : Bool) (e : Redis.Entry JobEntry) :
    f.MakesNone (reclaimEntryBroadcast a redispatch f e) := by
  unfold reclaimEntryBroadcast
  simp only
  split
  · exact .setQueue (.jobs (.refl _) rfl)
  rename_i hj
  have hchecked : SameHashes f.queue (checkExpired f.queue e.val.jobId a.timestamp a.serverNow).1 :=
    .frame (.refl _) (frame_checkExpired ..)
  generalize checkExpired f.queue e.val.jobId a.timestamp a.serverNow = r at *
  obtain ⟨s, expired⟩ := r
  cases expired with
  | true => exact .setQueue (hchecked.jobs rfl)
  | false =>
    simp only
    split
    · exact .setQueue hchecked
    have hstart : f.MakesNone (f.setQueue s) := .setQueue hchecked
    obtain ⟨hstalled, hthere⟩ := applyStalledLogicBroadcast_makesNone (f.setQueue s) (hchecked.there hj) a
    generalize applyStalledLogicBroadcast (f.setQueue s) e.val.jobId a = r at *
    obtain ⟨f', failed⟩ := r
    cases failed with
    | true => exact (hstart.trans hstalled).trans (.setQueue (.jobs (.refl _) rfl))
    | false =>
      have hactive := (hstart.trans hstalled).trans (.setQueue (.setState (.refl f'.queue) hthere .active))
      exact .ite (hactive.trans .hsetSub) hactive

theorem reclaimStalledBroadcast_makesNone (a : ReclaimArgs) (redispatch : Bool) (visited : Nat → Bool) :
    f.MakesNone (reclaimStalledBroadcast f a redispatch visited) := by
  have hclaimed : f.MakesNone (f.setQueue (f.queue.autoclaim a.group a.consumer visited)) :=
    .setQueue (.jobs (.refl _) rfl)
  unfold reclaimStalledBroadcast
  split
  · exact .refl f
  · exact hclaimed.trans (.foldl (fun f e => reclaimEntryBroadcast_makesNone f a redispatch e) _ _)

end

/-! ## Trims -/

section

variable {b : Broadcast} {J K : JobId}

theorem setJob_none {m : Message} (hK : b.jobs K = some m) (hJ : b.jobs J = none) (o : Option Message) :
    (b.setJob K o).jobs J = none := by
  have hne : J ≠ K := by
    rintro rfl
    rw [hJ] at hK
    cases hK
  exact (Function.update_of_ne hne _ _).trans hJ

theorem deleteTrimmedBroadcastJob_none (hJ : b.jobs J = none) : (deleteTrimmedBroadcastJob b K).jobs J = none := by
  unfold deleteTrimmedBroadcastJob
  split
  · exact hJ
  rename_i m hm
  split
  · exact hJ
  split
  · exact hJ
  split
  · exact hJ
  split
  · exact setJob_none hm hJ _
  split
  · exact hJ
  · exact setJob_none hm hJ none

theorem trimEntry_none {timestamp : Int} {x : Broadcast × List JobId} (hJ : x.1.jobs J = none)
    (e : Redis.Entry BroadcastEntry) : (trimEntry timestamp x e).1.jobs J = none := by
  unfold trimEntry
  split
  · exact hJ
  rename_i m hm
  split
  · exact setJob_none hm hJ _
  · exact hJ

theorem recheckHeld_none {timestamp : Int} {x : Broadcast × List JobId} (hJ : x.1.jobs J = none) (h : HeldClaim) :
    (recheckHeld timestamp x h).1.jobs J = none := by
  unfold recheckHeld
  split
  · exact hJ
  split
  · exact hJ
  · rename_i m hm
    exact setJob_none hm hJ _

theorem foldl_none {σ α : Type} {step : σ → α → σ} (jobs : σ → JobId → Option Message)
    (h : ∀ x a, jobs x J = none → jobs (step x a) J = none) (l : List α) {x : σ} (hJ : jobs x J = none) :
    jobs (l.foldl step x) J = none := by
  induction l generalizing x with
  | nil => exact hJ
  | cons a l ih => exact ih (h x a hJ)

theorem trimBroadcast_none (hJ : b.jobs J = none) (maxLen : Nat) (timestamp : Int) :
    (trimBroadcast b maxLen timestamp).1.jobs J = none := by
  unfold trimBroadcast
  simp only
  split
  · exact hJ
  refine foldl_none Broadcast.jobs (fun _ _ h => deleteTrimmedBroadcastJob_none h) _ ?_
  refine foldl_none (fun x : Broadcast × List JobId => x.1.jobs) (fun _ c h => recheckHeld_none h c) _ ?_
  exact foldl_none (fun x : Broadcast × List JobId => x.1.jobs) (fun _ e h => trimEntry_none h e) _ hJ

theorem fanout_trimBroadcast_makesNone (f : Fanout) (maxLen : Nat) (timestamp : Int) :
    f.MakesNone (f.trimBroadcast maxLen timestamp).1 := by
  refine ⟨fun K hK => ?_⟩
  have hbefore : f.broadcast.jobs K = none := by
    unfold Fanout.broadcast
    simp [hK.job]
  have hafter := trimBroadcast_none hbefore maxLen timestamp
  constructor
  · unfold Fanout.trimBroadcast Fanout.withBroadcast
    simp [hK.job]
  · unfold Fanout.trimBroadcast Fanout.withBroadcast
    simp [hafter]

end

/-! ## Runs -/

/-- In broadcast mode no call makes a hash. -/
theorem SubscriptionCall.makesNone (f : Fanout) (c : SubscriptionCall) : f.MakesNone (c.run f) := by
  cases c with
  | complete a => exact .setQueue (completeBroadcast_sameHashes _ a)
  | completeAndFetchNext a => exact .setQueue (completeAndFetchNextBroadcast_sameHashes _ a)
  | fail a requeueOnly => exact failBroadcast_makesNone f a requeueOnly
  | failAndFetchNext a => exact failAndFetchNextBroadcast_makesNone f a
  | moveToActive a => exact moveToActiveBroadcast_makesNone f a
  | deferActive a consumer => exact deferActiveBroadcast_makesNone f a consumer
  | recoverBroadcastClaims group consumer entryIds =>
    exact .foldl (fun f e => recoverBroadcastClaim_makesNone f group consumer e) entryIds f
  | reclaimStalled a redispatch visited => exact reclaimStalledBroadcast_makesNone f a redispatch visited
  | moveActiveToDelayed a delayedUntil => exact .setQueue (moveActiveToDelayedBroadcast_sameHashes _ a delayedUntil)
  | moveToWaitingChildren a => exact .setQueue (moveToWaitingChildrenBroadcast_sameHashes _ a)
  | suspend a timeout => exact .setQueue (suspendBroadcast_sameHashes _ a timeout)
  | rateLimitGroup a => exact .setQueue (rateLimitGroupBroadcast_sameHashes _ a)
  | trimBroadcast maxLen timestamp => exact fanout_trimBroadcast_makesNone f maxLen timestamp
  | subscribe group startId => exact .ite (.refl f) ⟨fun K hK => ⟨hK.job, hK.marks⟩⟩
  | skipEntry group entryId => exact .setQueue (.jobs (.refl _) rfl)
  | expireSub J group =>
    unfold SubscriptionCall.run
    exact .hsetSub

/-- The jobs that a call makes. -/
def FanoutCall.newJobs (F : FanoutSys) : FanoutCall → List (QueueName × JobId)
  | .standard c => c.newJobs F.queues
  | .broadcast _ _ => []

/-- The call is no promotion that finds a due member of the job, of a retry in some subscription or of the job
itself. -/
def FanoutCall.leavesGone (F : FanoutSys) (q : QueueName) (J : JobId) : FanoutCall → Prop
  | .standard c => c.leavesGone F.queues q J
  | .broadcast _ _ => True

theorem fanoutStep_stays_gone {F : FanoutSys} {q : QueueName} {J : JobId} {call : FanoutCall}
    (hdue : call.leavesGone F q J) (hnew : (q, J) ∉ call.newJobs F) (hgone : (F q).Gone J) :
    (fanoutStep F call q).Gone J := by
  cases call with
  | standard c =>
    have hjob : (sysStep F.queues c q).jobs J = none := sysStep_stays_gone hdue hnew hgone.job
    refine ⟨hjob, ?_⟩
    change (if ((sysStep F.queues c q).jobs J).isNone then _ else _) = _
    rw [hjob]
    rfl
  | broadcast p c =>
    change (Function.update F p (c.run (F p)) q).Gone J
    rw [Function.update_apply]
    split
    · rename_i hp
      subst hp
      exact (c.makesNone _).gone J hgone
    · exact hgone

/-- In a run that makes no job under the id, and in which no promotion finds a due member of it, no call
writes to the hash of a job that is gone. -/
theorem removed_stays_removed {F : FanoutSys} {q : QueueName} {J : JobId} (hgone : (F q).Gone J)
    {calls : List FanoutCall}
    (hmeets : Machine.Meets fanoutStep (fun F call => (q, J) ∉ call.newJobs F ∧ call.leavesGone F q J) F calls) :
    (Machine.run fanoutStep F calls q).Gone J :=
  @Machine.invariant _ _ _ _ (fun F => (F q).Gone J)
    (fun _ _ hF hcall => fanoutStep_stays_gone hcall.2 hcall.1 hF) F calls hgone hmeets

/-- A server without data. -/
def emptyFanouts : FanoutSys := fun q => { queue := { name := q } }

/-- A message that a subscription runs. -/
def runningMessage : List FanoutCall :=
  [.broadcast "q" (.subscribe "a" 0), .broadcast "q" (.subscribe "b" 0),
    .standard (.on "q" (.addJob { timestamp := 1, serverNow := 1 })),
    .standard (.on "q" (.readGroup "a" "v")),
    .broadcast "q" (.moveToActive { jobId := "1", entryId := some 1, group := "a", timestamp := 2, serverNow := 2 })]

/-- The subscription fails it, to run it again. -/
def failInFirst : FanoutCall :=
  .broadcast "q" (.fail
    { jobId := "1", entryId := some 1, timestamp := 3, serverNow := 3, maxAttempts := 3, group := "a" } false)

theorem removed_stays_removed_after_late_failure :
    let F := Machine.run fanoutStep emptyFanouts (runningMessage ++ [.standard (.on "q" (.removeJob "1" 2))])
    (Machine.run fanoutStep F
      [failInFirst, .broadcast "q" (.trimBroadcast 1 4), .standard (.on "q" (.promote 80 80))] "q").Gone "1" := by
  intro F
  refine removed_stays_removed ⟨by decide +kernel, by decide +kernel⟩
    ⟨⟨by decide, trivial⟩, ⟨by decide, trivial⟩, ⟨by decide, ?_⟩, trivial⟩
  rintro member ⟨now, serverNow, hcall, p, x, hmem, -⟩
  exact absurd hmem (List.not_mem_nil)

/-- A stalled job is handed to a second worker, which completes it. Then the first one fails it. -/
def ghostRun : List FanoutCall :=
  [.standard (.on "q" (.addJob { timestamp := 1, serverNow := 1 })),
   .standard (.on "q" (.readGroup "g" "a")),
   .standard (.on "q" (.moveToActive
     { jobId := "1", entryId := some 1, group := "g", timestamp := 2, serverNow := 2 })),
   .standard (.on "q" (.reclaimStalled
     { group := "g", consumer := "b", minIdleMs := 0, timestamp := 60, serverNow := 60 }
     fun _ => true)),
   .standard (.on "q" (.readGroup "g" "b")),
   .standard (.on "q" (.moveToActive
     { jobId := "1", entryId := some 2, group := "g", timestamp := 61, serverNow := 61 })),
   .standard (.on "q" (.complete
     { jobId := "1", entryId := some 2, timestamp := 62, serverNow := 62, group := "g" })),
   .standard (.on "q" (.fail
     { jobId := "1", entryId := some 1, timestamp := 63, serverNow := 63, maxAttempts := 3,
       group := "g" } false))]

/-- One subscription is to run the message again, and another one completes it. -/
def ghostMessage : List FanoutCall :=
  runningMessage ++ [failInFirst,
    .standard (.on "q" (.readGroup "b" "w")),
    .broadcast "q" (.moveToActive { jobId := "1", entryId := some 1, group := "b", timestamp := 4, serverNow := 4 }),
    .broadcast "q" (.complete { jobId := "1", entryId := some 1, timestamp := 5, serverNow := 5, group := "b" })]

/-- After these calls a clean takes job 1, and a promotion writes its hash again and makes no new job. -/
def ComesBack (calls : List FanoutCall) : Prop :=
  let F := Machine.run fanoutStep emptyFanouts calls
  let gone := fanoutStep F (.standard (.on "q" (.clean .completed 70 10)))
  let promotion : FanoutCall := .standard (.on "q" (.promote 80 80))
  ("1" ∈ (clean (F "q").queue .completed 70 10).2 ∧ (gone "q").queue.jobs "1" = none) ∧
    ("q", "1") ∉ promotion.newJobs gone ∧ (fanoutStep gone promotion "q").queue.stateOf "1" = some .waiting

/-- The retry leaves the completed job a due member too, and the clean does not take it. -/
theorem removed_is_written : ComesBack ghostRun ∧ ComesBack ghostMessage := by
  constructor
  · -- the retry of the worker that lost the job
    unfold ComesBack
    decide +kernel
  · -- the retry of the other subscription
    unfold ComesBack
    decide +kernel

end GlideMq
