import GlideMq.Proofs.CallRuns

/-!
# What a step does to one job

A step leaves a job as it is, moves it for a reason, or it deletes, retries or creates it.
-/

namespace GlideMq

open Queue Redis

section

variable {s₀ s t u : Queue} {c : Option Call} {h : Option JobId} {J : JobId}

theorem WhyTaken.slot_ne_retain {m : Move} (why : WhyTaken s₀ c s m) : m.slot ≠ .retain := by
  have hend (st : Option JobState) : endSlot st ≠ .retain := by
    unfold endSlot
    split <;> simp
  cases why with
  | remove hc hs hj hsrc => exact hend _
  | @complete call a st hc ha hs hst hr =>
    cases call <;> simp only [Call.completionSlot, ne_eq] <;> try split
    all_goals simp
  | fail hc ha hs hj hr => simp
  | replace hc hs hst => simp
  | revoke hc hst hsrc => simp

theorem retryFailedJob_jobs_of_ne {K : JobId} (hK : K ≠ J) (timestamp : Int) :
    (retryFailedJob s J timestamp).jobs K = s.jobs K := by
  unfold retryFailedJob issueSeq
  simp only
  split <;> simp [hK]

theorem create_jobs_of_ne {K : JobId} (hK : K ≠ J) (n : NewJob) :
    (s.create J n).jobs K = s.jobs K := by
  unfold create issueSeq
  simp only
  cases n.key <;> simp [hK]

/-! ## Changes -/

inductive JobChange (s₀ : Queue) (c : Option Call) (s t : Queue) (J : JobId) : Prop
  | same (hst : t.stateOf J = s.stateOf J) (hj : t.jobs J = none ↔ s.jobs J = none)
  | moved {m} (why : Why s₀ c s m) (hm : m.job = J) (hst : t.stateOf J = some m.state)
  | gone (hj : t.jobs J = none)
  | retried (hc : Retries c) (hmem : J ∈ s.failed ∨ s.stateOf J = some .failed)
      (hj : s.jobs J ≠ none) (hst : t.stateOf J = some .delayed)
  | created {st} (hc : Creates s₀ c J) (hst : t.stateOf J = some st)

theorem JobChange.of_jobs (h : t.jobs J = s.jobs J) : JobChange s₀ c s t J := by
  refine .same ?_ (by rw [h])
  unfold stateOf
  rw [h]

theorem JobChange.of_unlink {K : JobId} (ht : t.jobs = (s.unlinkJob K).jobs) :
    JobChange s₀ c s t J := by
  by_cases hK : J = K
  · refine .gone ?_
    simp [ht, hK]
  · refine .of_jobs ?_
    simp [ht, hK]

theorem JobChange.quiet (h : JobChange s₀ c s t J) (hu : u.life = t.life) : JobChange s₀ c s u J := by
  cases h with
  | same hst hj => exact .same ((stateOf_of_life hu J).trans hst) ((jobs_none_of_life hu J).trans hj)
  | moved why hm hst => exact .moved why hm ((stateOf_of_life hu J).trans hst)
  | gone hj => exact .gone ((jobs_none_of_life hu J).mpr hj)
  | retried hc hmem hj hst => exact .retried hc hmem hj ((stateOf_of_life hu J).trans hst)
  | created hc hst => exact .created hc ((stateOf_of_life hu J).trans hst)

theorem QStep.job_change {x y : Cfg} (hstep : QStep s₀ c x y) (J : JobId) :
    JobChange s₀ c x.2 y.2 J := by
  cases hstep with
  | quiet ht => exact .quiet (.of_jobs rfl) ht
  | @move h h' s t m why hh ht =>
    refine .quiet ?_ ht
    by_cases hm : J = m.job
    · refine .moved why hm.symm ?_
      rw [stateOf_apply, if_pos hm]
    · refine .same ?_ ?_
      · rw [stateOf_apply, if_neg hm]
      · rw [apply_jobs_none]
        exact and_iff_right hm
  | limit gk x => exact .of_jobs rfl
  | unlimit gk => exact .of_jobs rfl
  | @skip h s gk => exact .of_jobs (congrFun (skipToNext_jobs s gk _) J)
  | tombstone hq hj => exact .of_jobs (congrFun (consumeOrderedTombstone_jobs _ _ _ _ _) J)
  | unpark hq hst => exact .of_jobs rfl
  | repark hq x => exact .of_jobs rfl
  | @ack h s K group e hst he => exact .of_jobs (congrFun (ackDel_jobs s group e) J)
  | unclaim hst => exact .of_jobs rfl
  | @flag h s K timestamp serverNow group hcall hj =>
    refine .same ?_ ?_
    · rw [stateOf_hset]
      split
      · rename_i hK
        rw [hK, stateOf_eq]
      · rfl
    · rw [hset_jobs, Function.update_apply]
      split
      · rename_i hK
        subst hK
        simp [hj]
      · rfl
  | unsuspend hst => exact .of_jobs rfl
  | unschedule hcall hst => exact .of_jobs rfl
  | @take s t m why ht =>
    refine .quiet (.same (stateOf_withdraw s J m) ?_) ht
    exact withdraw_jobs_none s J m fun hretain => absurd hretain why.slot_ne_retain
  | @empty s K src hsrc => exact .of_jobs (congrFun (takeFrom_jobs s K src) J)
  | @unend h s K t hst => cases t <;> exact .of_jobs rfl
  | @delete s K => exact .of_unlink rfl
  | @sweep h s K t hmem => cases t <;> exact .of_unlink rfl
  | @drain h s t K hcall ht =>
    refine .quiet ?_ ht
    by_cases hK : J = K
    · refine .gone ?_
      simp [hK]
    · refine .same ?_ ?_
      · have hst := closeOrderingHole_stateOf s K J
        rw [← hst]
        simp [stateOf, hK]
      · have hj := frame_jobs_none (frame_closeOrderingHole s K) J
        rw [← hj]
        simp [hK]
  | clearScheduled hall => exact .of_jobs rfl
  | clearList k hall => cases k <;> exact .of_jobs rfl
  | @pop s k K hlast hreach hcall => cases k <;> exact .of_jobs rfl
  | discard hreach hcall hst => exact .of_jobs rfl
  | @reserve h s k K hlast => cases k <;> exact .of_jobs rfl
  | @retry h s t K timestamp hcall hmem hj ht =>
    refine .quiet ?_ ht
    by_cases hK : J = K
    · subst hK
      refine .retried hcall hmem hj ?_
      simp [retryFailedJob, stateOf]
    · exact .of_jobs (retryFailedJob_jobs_of_ne hK timestamp)
  | @create s t K n hcreates hn hfree ht =>
    by_cases hK : J = K
    · subst hK
      have hst : (s.create J n).stateOf J = some n.state := by
        rw [stateOf_eq]
        unfold Queue.create Queue.job
        simp only [hset_jobs, Function.update_self, Option.getD_some]
        exact congrArg Job.state (hn.job _ _)
      exact .quiet (.created hcreates hst) ht
    · exact .quiet (.of_jobs (create_jobs_of_ne hK n)) ht
  | record hcall hJ => exact .of_jobs rfl
  | @enqueue s K p st hst hp => exact .of_jobs (congrFun (put_jobs s K p) J)

end

end GlideMq
