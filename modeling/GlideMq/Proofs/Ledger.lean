import GlideMq.Proofs.ChainCharges
import GlideMq.Proofs.FlowRuns

/-!
# The ledger of a group

What a call writes to the quota of a group: it charges an activation, gives one back, configures the
group, or only refills its bucket.
-/

namespace GlideMq

open Queue Redis

/-! ## Activations -/

def ChainNext.activation : ChainNext → Option (JobId × Option Nat × Job)
  | .hash J e fields => some (J, e, fields)
  | _ => Option.none

/-- The job that the reply of a call names as started, with its entry and its hash. -/
def Call.activation (s : Queue) : Call → Option (JobId × Option Nat × Job)
  | .moveToActive a =>
    (GlideMq.moveToActive s a).2.fields.map fun fields => (a.jobId, a.entryId, fields)
  | .completeAndFetchNext a =>
    (GlideMq.completeAndFetchNext s a).2.bind fun r => r.next.activation
  | .failAndFetchNext a consumer => (GlideMq.failAndFetchNext s a consumer).2.2.next.activation
  | _ => none

/-- A chain call took the job from the LIFO list, past the gates of its group. -/
def Call.tookLifo (s : Queue) (c : Call) (e : Option Nat) : Bool :=
  c.chains ∧ e = none ∧ (c.run s).lifoList.length < s.lifoList.length

inductive Posting where
  | charge (cost : Int)
  | credit (cost : Int)
  deriving DecidableEq

/-- The activation of a job of the group that is charged to it, or given back to it. -/
def Call.posting (s : Queue) (gk : GroupKey) (c : Call) : Option Posting :=
  match c with
  | .deferActive a =>
    if a.undoGroupClaim ∧ s.jobs a.jobId ≠ none ∧ (s.job a.jobId).groupKey = some gk then
      some (.credit ((s.job a.jobId).cost.getD 1000))
    else none
  | c =>
    match c.activation s with
    | some (_, e, fields) =>
      if fields.groupKey = some gk ∧ ¬ c.tookLifo s e then some (.charge (fields.cost.getD 1000))
      else none
    | none => none

/-! ## Clocks -/

/-- The server's clock that a call reads. -/
def Call.serverNow : Call → Option Int
  | .addJob a => some a.serverNow
  | .dedup a => some a.serverNow
  | .promote _ serverNow | .promoteRateLimited _ serverNow => some serverNow
  | .complete a => some a.serverNow
  | .completeAndFetchNext a => some a.serverNow
  | .fail a _ | .failAndFetchNext a _ => some a.serverNow
  | .reclaimStalled a _ => some a.serverNow
  | .reclaimStalledListJobs a _ => some a.serverNow
  | .moveToActive a => some a.serverNow
  | .removeJob _ serverNow => some serverNow
  | .revoke _ _ serverNow _ => some serverNow
  | .moveActiveToDelayed a _ | .moveToWaitingChildren a | .suspend a _ => some a.serverNow
  | .sweepSuspended _ serverNow => some serverNow
  | .drain _ _ serverNow => some serverNow
  | _ => none

/-- The worker's clock at which a call starts a job. -/
def Call.startsAt : Call → Option Int
  | .completeAndFetchNext a => some a.timestamp
  | .failAndFetchNext a _ => some a.timestamp
  | .moveToActive a => some a.timestamp
  | _ => none

/-- Calls that may write more to a quota than a refill. -/
def Call.posts : Call → Bool
  | .addJob _ | .dedup _ | .moveToActive _ | .completeAndFetchNext _ | .failAndFetchNext _ _
  | .deferActive _ => true
  | _ => false

theorem call_idle {x : Int} (s : Queue) {c : Call} (hc : c.posts = false)
    (hx : ∀ y ∈ c.serverNow, y = x) : Idle x s (c.run s) := by
  cases c with
  | addJob a => cases hc
  | dedup a => cases hc
  | moveToActive a => cases hc
  | completeAndFetchNext a => cases hc
  | failAndFetchNext a consumer => cases hc
  | deferActive a => cases hc
  | promote now serverNow =>
    obtain rfl := hx _ rfl
    exact idle_promote s now serverNow
  | promoteRateLimited now serverNow =>
    obtain rfl := hx _ rfl
    exact idle_promoteRateLimited s now serverNow
  | complete a =>
    obtain rfl := hx _ rfl
    exact idle_complete s a
  | fail a requeueOnly =>
    obtain rfl := hx _ rfl
    exact idle_failJobCore s a requeueOnly
  | reclaimStalled a visited =>
    obtain rfl := hx _ rfl
    exact idle_reclaimStalled s a visited
  | reclaimStalledListJobs a scan =>
    obtain rfl := hx _ rfl
    exact idle_reclaimStalledListJobs s a scan
  | getActiveListJobIds scan => exact idle_activeListIds s scan
  | healListActive scan => exact idle_healListActive s scan
  | rpopAndReserve k group count => exact idle_rpopAndReserve s k group count
  | popLists count => exact idle_popLists s count
  | popListsReserve count => exact idle_popListsReserve s count
  | removeJob J serverNow =>
    obtain rfl := hx _ rfl
    exact idle_removeJob s J serverNow
  | clean t cutoff limit => exact idle_clean s t cutoff limit
  | revoke J timestamp serverNow group =>
    obtain rfl := hx _ rfl
    exact idle_revoke s J timestamp serverNow group
  | changePriority J newPriority group => exact idle_changePriority s J newPriority group
  | changeDelay J newDelay now group => exact idle_changeDelay s J newDelay now group
  | promoteJob J => exact idle_promoteJob s J
  | moveActiveToDelayed a delayedUntil =>
    obtain rfl := hx _ rfl
    exact idle_moveActiveToDelayed s a delayedUntil
  | moveToWaitingChildren a =>
    obtain rfl := hx _ rfl
    exact idle_moveToWaitingChildren s a
  | suspend a timeout =>
    obtain rfl := hx _ rfl
    exact idle_suspend s a timeout
  | signal J => exact idle_signal s J
  | sweepSuspended now serverNow =>
    obtain rfl := hx _ rfl
    exact idle_sweepSuspended s now serverNow
  | rateLimitGroup a => exact idle_rateLimitGroup s a
  | rateLimitGroupExternal gk duration timestamp extendMax => exact (Idle.refl s).other rfl rfl
  | drain drainDelayed group serverNow =>
    obtain rfl := hx _ rfl
    exact idle_drain s drainDelayed group serverNow
  | retryJobs count timestamp => exact Idle.retryBatches count timestamp _ (.refl s)
  | retryJob J timestamp => exact idle_retryJob s J timestamp
  | registerChildDep parentId m => exact (calm_registerChildDep s parentId m).idle
  | completeChild parentId m => exact (Calm.refl s).completeParentDependency.idle
  | healEarlyDeps page => exact idle_healEarlyDeps s page
  | casSchedulerEntry name old new =>
    change Idle x s (casSchedulerEntry s name old new).1
    unfold casSchedulerEntry
    split <;> exact (Idle.refl s).other rfl rfl
  | schedulerAwaitInflight name J old =>
    change Idle x s (schedulerAwaitInflight s name J old).1
    unfold schedulerAwaitInflight
    repeat' split
    all_goals exact (Idle.refl s).other rfl rfl
  | readGroup group consumer =>
    change Idle x s (readGroup s group consumer)
    unfold readGroup
    split <;> exact (Idle.refl s).other rfl rfl
  | pause => exact (Idle.refl s).other rfl rfl
  | resume => exact (Idle.refl s).other rfl rfl
  | releaseReservation n => exact (Idle.refl s).other rfl rfl
  | setGlobalConcurrency n => exact (Idle.refl s).other rfl rfl
  | removeNotification n => exact (Idle.refl s).other rfl rfl

/-! ## Chain calls -/

section

variable {x now : Int} {s t u v : Queue} {J : JobId} {gk : GroupKey}

theorem FetchEnd.after {next : ChainNext} (h : FetchEnd x now t u next) (hidle : Idle x s t)
    (hlist : t.lifoList = s.lifoList) (hj : v.jobs = u.jobs) (hg : v.groups = u.groups)
    (hl : v.lifoList = u.lifoList) : FetchEnd x now s v next := by
  cases h with
  | started hidle' h hfields hkey =>
    have hjob := job_of_jobs hj
    refine .started (hidle.trans hidle') (h.quiet hj fun k => by rw [hg]) ?_ ?_
    · rw [hjob, hfields]
    · rwa [hl, ← hlist]
  | idle h hnext => exact .idle ((hidle.trans h).other hj hg) hnext

theorem completeAndFetchNext_end (s : Queue) (a : CompleteNextArgs) :
    (completeAndFetchNext s a).2 = none ∧ (completeAndFetchNext s a).1 = s ∨
      ∃ reply, (completeAndFetchNext s a).2 = some reply ∧
        FetchEnd a.serverNow a.timestamp s (completeAndFetchNext s a).1 reply.next := by
  unfold completeAndFetchNext
  simp only
  split
  · exact .inl ⟨rfl, rfl⟩
  refine .inr ⟨_, rfl, ?_⟩
  have hbegin : Idle a.serverNow s (ackDel (beginChain s) a.group a.entryId) :=
    ((Idle.refl s).other (u := beginChain s) rfl rfl).ackDel
  have hlist : (ackDel (beginChain s) a.group a.entryId).list .lifo = s.list .lifo := by
    rw [ackDel_list]
    rfl
  -- the completion
  have hsettled : Idle a.serverNow s
        (if (s.job a.jobId).state = none then
          (forgetListClaim (ackDel (beginChain s) a.group a.entryId) a.jobId a.entryId, [])
        else completeInChain (ackDel (beginChain s) a.group a.entryId) a (s.job a.jobId)).1 ∧
      (if (s.job a.jobId).state = none then
          (forgetListClaim (ackDel (beginChain s) a.group a.entryId) a.jobId a.entryId, [])
        else completeInChain (ackDel (beginChain s) a.group a.entryId) a (s.job a.jobId)).1.list
        .lifo = s.list .lifo := by
    split
    · exact ⟨hbegin.calm (Calm.refl _).forgetListClaim, by rw [list_forgetListClaim, hlist]⟩
    · refine ⟨?_, by rw [list_completeInChain, hlist]⟩
      have hchain := (completeInChain_settles (beginChain s) a (s.job a.jobId)).idle_call
      exact ((Idle.refl s).other (u := beginChain s) rfl rfl).trans hchain
  generalize (if (s.job a.jobId).state = none then _ else _) = r at *
  obtain ⟨t, ns⟩ := r
  obtain ⟨hidle, hl⟩ := hsettled
  dsimp only at hidle hl ⊢
  -- the fetch
  have hfetch : FetchEnd a.serverNow a.timestamp t
      (if t.paused then (t, ChainNext.none) else fetchNextForChain t a.fetch).1
      (if t.paused then (t, ChainNext.none) else fetchNextForChain t a.fetch).2 := by
    split
    · exact .idle (.refl t) (by simp)
    · exact fetchNextForChain_end t a.fetch
  exact hfetch.after hidle hl rfl rfl rfl

theorem failAndFetchNext_end (s : Queue) (a : FailArgs) (consumer : String) :
    FetchEnd a.serverNow a.timestamp s (failAndFetchNext s a consumer).1
      (failAndFetchNext s a consumer).2.2.next := by
  unfold failAndFetchNext
  simp only
  have hidle : Idle a.serverNow s (failJobCore (beginChain s) a false).1 :=
    ((Idle.refl s).other (u := beginChain s) rfl rfl).trans (idle_failJobCore _ a false)
  have hlist : (failJobCore (beginChain s) a false).1.list .lifo = s.list .lifo := by
    rw [list_failJobCore]
    rfl
  generalize failJobCore (beginChain s) a false = r at *
  obtain ⟨t, result⟩ := r
  dsimp only at hidle hlist ⊢
  have hfetch : FetchEnd a.serverNow a.timestamp t
      (if consumer = "" ∨ t.paused then (t, ChainNext.none) else fetchNextForChain t (a.fetch consumer)).1
      (if consumer = "" ∨ t.paused then (t, ChainNext.none) else
        fetchNextForChain t (a.fetch consumer)).2 := by
    split
    · exact .idle (.refl t) (by simp)
    · exact fetchNextForChain_end t (a.fetch consumer)
  exact hfetch.after hidle hlist rfl rfl rfl

end

end GlideMq
