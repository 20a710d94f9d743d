import GlideMq.Proofs.CalmCalls

/-!
# Calls that charge no group

Most calls start no job and charge no group: they may refill a bucket, at the server's clock.
-/

namespace GlideMq

open Queue Redis

/-- No job starts, and no quota changes but by a refill. -/
structure Idle (x : Int) (s t : Queue) : Prop where
  jobs : ∀ J, JobKept (s.job J) (t.job J)
  quotas : ∀ gk, Refilled x (s.groups gk) (t.groups gk)

section

variable {x : Int} {s t u : Queue} {J : JobId} {group : Group} {e : Option Nat}

theorem Idle.refl (s : Queue) : Idle x s s := ⟨fun _ => .refl _, fun _ => .refl _⟩

theorem Idle.trans (h : Idle x s t) (h' : Idle x t u) : Idle x s u :=
  ⟨fun J => (h.jobs J).trans (h'.jobs J), fun gk => (h.quotas gk).trans (h'.quotas gk)⟩

theorem Calm.idle (h : Calm x s t) : Idle x s t := ⟨h.jobs, h.quotas⟩

theorem Idle.not_active (h : Idle x s t) (hs : s.stateOf J ≠ some .active) :
    t.stateOf J ≠ some .active := by
  rw [stateOf_eq] at hs ⊢
  exact fun ht => hs ((h.jobs J).active ht).1

theorem job_of_jobs (h : t.jobs = s.jobs) (K : JobId) : t.job K = s.job K := by
  unfold Queue.job
  rw [h]

theorem Idle.other (h : Idle x s t) (hj : u.jobs = t.jobs) (hg : u.groups = t.groups) :
    Idle x s u := by
  refine h.trans ⟨fun J => ?_, fun gk => ?_⟩
  · rw [job_of_jobs hj]
    exact .refl _
  · rw [hg]
    exact .refl _

theorem Idle.calm (h : Idle x s t) (ht : Calm x t u) : Idle x s u := h.trans ht.idle

theorem Idle.hset (h : Idle x s t) {f : Job → Job} (hf : ∀ j, JobKept j (f j)) :
    Idle x s (t.hset J f) := h.calm ((Calm.refl t).hset hf)

theorem Idle.hset_at (h : Idle x s t) {f : Job → Job} (hf : JobKept (t.job J) (f (t.job J))) :
    Idle x s (t.hset J f) := h.calm ((Calm.refl t).update hf)

theorem Idle.setState (h : Idle x s t) (st : JobState) (hst : st ≠ .active) :
    Idle x s (t.setState J st) := h.calm ((Calm.refl t).setState hst)

theorem Idle.unlinkJob (h : Idle x s t) : Idle x s (t.unlinkJob J) := h.calm (Calm.refl t).unlinkJob

theorem Idle.xaddJob (h : Idle x s t) : Idle x s (t.xaddJob J) := h.other rfl rfl

theorem Idle.foldl {α : Type} {f : Queue → α → Queue} {l : List α}
    (hf : ∀ u, ∀ a ∈ l, Idle x u (f u a)) (h : Idle x s t) : Idle x s (l.foldl f t) := by
  induction l generalizing t with
  | nil => exact h
  | cons a l ih =>
    refine ih (fun u b hb => hf u b (List.mem_cons_of_mem a hb)) ?_
    exact h.trans (hf t a List.mem_cons_self)

theorem Idle.foldl_fst {α β : Type} {f : Queue × β → α → Queue × β} {l : List α}
    (hf : ∀ r, ∀ a ∈ l, Idle x r.1 (f r a).1) {r : Queue × β} (h : Idle x s r.1) :
    Idle x s (l.foldl f r).1 := by
  induction l generalizing r with
  | nil => exact h
  | cons a l ih =>
    refine ih (fun r b hb => hf r b (List.mem_cons_of_mem a hb)) ?_
    exact h.trans (hf r a List.mem_cons_self)

/-! ## Settling -/

theorem Idle.ackDel (h : Idle x s t) : Idle x s (ackDel t group e) := by
  unfold GlideMq.ackDel
  cases e <;> exact h.other rfl rfl

theorem Idle.decrListActive (h : Idle x s t) : Idle x s (decrListActive t J) := by
  rw [decrListActive_eq]
  exact h.other rfl rfl

theorem Idle.settleListClaim (h : Idle x s t) : Idle x s (settleListClaim t J e) := by
  unfold GlideMq.settleListClaim
  split
  · exact h.decrListActive.other rfl rfl
  · exact h

theorem Idle.giveBack (h : Idle x s t) : Idle x s (giveBack t J group e) := h.ackDel.settleListClaim

theorem Settles.idle_call (h : Settles x s t J group e) : Idle x s t := (Idle.refl s).giveBack.calm h.calm

theorem idle_complete (s : Queue) (a : CompleteArgs) : Idle a.serverNow s (complete s a).1 := by
  by_cases hrev : (s.job a.jobId).revoked
  · unfold complete
    simp only [hrev, if_true]
    exact .refl s
  · by_cases hst : s.stateOf a.jobId = none
    · rw [stateOf_eq] at hst
      unfold complete
      simp only [hrev, hst, if_true, if_false, Bool.false_eq_true]
      exact (Idle.refl s).ackDel.calm (Calm.refl _).forgetListClaim
    · exact (complete_settles (by simpa using hrev) hst).idle_call

theorem idle_failJobCore (s : Queue) (a : FailArgs) (requeueOnly : Bool) :
    Idle a.serverNow s (failJobCore s a requeueOnly).1 := by
  by_cases hj : s.jobs a.jobId = none
  · have hj' : (ackDel s a.group a.entryId).jobs a.jobId = none := by
      unfold ackDel
      split <;> exact hj
    unfold failJobCore
    simp only [hj', if_true]
    exact (Idle.refl s).ackDel.calm (Calm.refl _).forgetListClaim
  · exact (failJobCore_settles hj requeueOnly).idle_call

theorem idle_moveActiveToDelayed (s : Queue) (a : PostponeArgs) (delayedUntil : Int) :
    Idle a.serverNow s (moveActiveToDelayed s a delayedUntil).1 := by
  by_cases hst : s.stateOf a.jobId = some .active
  · exact (moveActiveToDelayed_settles hst delayedUntil).idle_call
  · unfold moveActiveToDelayed
    simp only [ne_eq, hst, not_false_eq_true, if_true]
    split <;> exact .refl s

theorem idle_moveToWaitingChildren (s : Queue) (a : PostponeArgs) :
    Idle a.serverNow s (moveToWaitingChildren s a).1 := by
  by_cases hst : s.stateOf a.jobId = some .active
  · exact (moveToWaitingChildren_settles hst).idle_call
  · unfold moveToWaitingChildren
    simp only [ne_eq, hst, not_false_eq_true, if_true]
    split <;> exact .refl s

theorem idle_suspend (s : Queue) (a : PostponeArgs) (timeout : Int) :
    Idle a.serverNow s (suspend s a timeout).1 := by
  by_cases hst : s.stateOf a.jobId = some .active
  · exact (suspend_settles hst timeout).idle_call
  · unfold suspend
    simp only [ne_eq, hst, not_false_eq_true, if_true]
    split <;> exact .refl s

theorem idle_rateLimitGroup (s : Queue) (a : RateLimitArgs) : Idle x s (rateLimitGroup s a).1 := by
  by_cases hst : s.stateOf a.jobId = some .active
  · cases hgk : (s.job a.jobId).groupKey with
    | none =>
      unfold rateLimitGroup
      simp only [hst, hgk, ne_eq, not_true_eq_false, if_false]
      exact .refl s
    | some gk => exact (rateLimitGroup_settles hst hgk).idle_call
  · unfold rateLimitGroup
    simp only [ne_eq, hst, not_false_eq_true, if_true]
    exact .refl s

/-! ## Stalled jobs -/

theorem Idle.applyStalledLogic {n : Nat} {timestamp serverNow : Int} (h : Idle serverNow s t) :
    Idle serverNow s (applyStalledLogic t J n timestamp serverNow).1 := by
  unfold GlideMq.applyStalledLogic
  simp only
  have hcount : Calm serverNow t (t.hset J fun j => { j with stalledCount := j.stalledCount + 1 }) :=
    (Calm.refl t).hset fun _ => .touch rfl rfl rfl
  split
  · generalize t.hset J _ = u at *
    have hmark : Calm serverNow t (markOrderingDone (advanceRepeatAfterComplete
        ((u.zaddFailed J timestamp).setFailed J stalledReason timestamp) J timestamp) J none none) :=
      hcount.zaddFailed.setFailed.advanceRepeatAfterComplete.markOrderingDone
    exact h.calm (Calm.quiet (t := releaseGroupSlotAndPromote _ J timestamp serverNow none false)
      hmark.releaseGroupSlotAndPromote rfl)
  · exact h.calm hcount

theorem Idle.setRedispatched (h : Idle x s t) : Idle x s (setRedispatched t J) :=
  h.hset fun _ => .idle nofun rfl rfl

theorem idle_reclaimEntry (a : ReclaimArgs) (s : Queue) (e : Entry JobEntry) :
    Idle a.serverNow s (reclaimEntry a s e) := by
  have hexpired : Idle a.serverNow s (checkExpired s e.val.jobId a.timestamp a.serverNow).1 :=
    (Calm.refl s).checkExpired.idle
  unfold reclaimEntry
  simp only
  split
  · exact (Idle.refl s).ackDel
  split
  · rename_i heq
    rw [heq] at hexpired
    exact hexpired.ackDel
  · rename_i u heq
    rw [heq] at hexpired
    split
    · exact hexpired
    · have hstalled : Idle a.serverNow s
          (applyStalledLogic u e.val.jobId a.maxStalledCount a.timestamp a.serverNow).1 :=
        hexpired.applyStalledLogic
      split
      · rename_i heq'
        rw [heq'] at hstalled
        exact hstalled.ackDel
      · rename_i heq'
        rw [heq'] at hstalled
        exact hstalled.ackDel.setRedispatched.xaddJob

theorem idle_reclaimStalled (s : Queue) (a : ReclaimArgs) (visited : Nat → Bool) :
    Idle a.serverNow s (reclaimStalled s a visited) := by
  unfold reclaimStalled
  split
  · exact .refl s
  · have hclaim : Idle a.serverNow s (s.autoclaim a.group a.consumer visited) :=
      (Idle.refl s).other rfl rfl
    exact hclaim.foldl fun u e _ => idle_reclaimEntry a u e

theorem idle_activeListIds (s : Queue) (scan : Scan) : Idle x s (activeListIds s scan).1 := by
  unfold activeListIds
  simp only
  repeat' split
  all_goals exact (Idle.refl s).other rfl rfl

theorem idle_healListActive (s : Queue) (scan : Scan) : Idle x s (healListActive s scan).1 := by
  have hprune (u : Queue) : Idle x u (pruneListActiveIds u).1 :=
    (Idle.refl u).foldl fun v _ _ => (Idle.refl v).other rfl rfl
  have hcorrect (u : Queue) (n : Int) (live : Nat) : Idle x u (correctListActive u n live).1 := by
    unfold correctListActive
    simp only
    split
    · exact (Idle.refl u).other rfl rfl
    · exact .refl u
  unfold healListActive
  simp only
  split
  · exact .refl s
  split
  · exact (hprune s).trans (hcorrect _ _ _)
  split
  · exact (Idle.refl s).other rfl rfl
  · generalize (scan.found s).foldl (fun l J => l.insert J) s.listActiveSeed = seed
    have hseed : Idle x s ((s.saddListActiveIds seed).setListActiveSeed []) :=
      (Idle.refl s).other rfl rfl
    have hpruned := hseed.trans (hprune _)
    have hseeded := hpruned.other (u := Queue.setListActiveSeeded _ true) rfl rfl
    exact hseeded.trans (hcorrect _ _ _)

theorem Idle.requeueStalled (h : Idle x s t) {lifo : Bool} {priority : Nat} :
    Idle x s (requeueStalled t J lifo priority) := by
  unfold GlideMq.requeueStalled
  simp only
  split
  · exact h.setRedispatched.other rfl rfl
  split
  · exact h.setRedispatched.other rfl rfl
  · exact h.setRedispatched.xaddJob

theorem idle_reclaimListJob (a : ReclaimListArgs) (s : Queue) (J : JobId) :
    Idle a.serverNow s (reclaimListJob a s J) := by
  have htouch : Calm a.serverNow s (s.hset J ({ · with lastActive := some a.timestamp })) :=
    (Calm.refl s).hset fun _ => .touch rfl rfl rfl
  have hexpired : Idle a.serverNow s (checkExpired (s.hset J ({ · with lastActive := some a.timestamp }))
      J a.timestamp a.serverNow).1 := htouch.checkExpired.idle
  unfold reclaimListJob
  simp only
  split
  · split
    · rename_i heq
      rw [heq] at hexpired
      exact hexpired.decrListActive
    · rename_i u heq
      rw [heq] at hexpired
      have hstalled : Idle a.serverNow s
          (applyStalledLogic u J a.maxStalledCount a.timestamp a.serverNow).1 := hexpired.applyStalledLogic
      split
      · rename_i heq'
        rw [heq'] at hstalled
        exact hstalled.decrListActive
      · rename_i heq'
        rw [heq'] at hstalled
        exact hstalled.requeueStalled.decrListActive
  · exact .refl s

theorem idle_reclaimStalledListJobs (s : Queue) (a : ReclaimListArgs) (scan : Scan) :
    Idle a.serverNow s (reclaimStalledListJobs s a scan) := by
  unfold reclaimStalledListJobs
  split
  · exact .refl s
  · exact (idle_activeListIds s scan).foldl fun u J _ => idle_reclaimListJob a u J

end

end GlideMq
