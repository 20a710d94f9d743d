import GlideMq.Proofs.FlowRuns

/-!
# Calls as runs of steps

Every call is a run of steps on every queue, and starts and ends with no job in hand. An invariant
that each step keeps holds after each call.
-/

namespace GlideMq

open Queue Redis

section

variable {s₀ : Queue} {c : Option Call}

theorem life_activeListIds (s : Queue) (scan : Scan) : (activeListIds s scan).1.life = s.life := by
  unfold activeListIds
  simp only
  repeat' split
  all_goals rfl

theorem life_pruneListActiveIds (s : Queue) : (pruneListActiveIds s).1.life = s.life := by
  have hfold (dead : List JobId) (t : Queue) : (dead.foldl sremListActiveIds t).life = t.life := by
    induction dead generalizing t with
    | nil => rfl
    | cons J dead ih => exact ih (t.sremListActiveIds J)
  exact hfold _ s

theorem life_correctListActive (s : Queue) (counter : Int) (live : Nat) :
    (correctListActive s counter live).1.life = s.life := by
  unfold correctListActive
  simp only
  split <;> rfl

theorem life_healListActive (s : Queue) (scan : Scan) : (healListActive s scan).1.life = s.life := by
  unfold healListActive
  simp only
  split
  · rfl
  split
  · exact (life_correctListActive _ _ _).trans (life_pruneListActiveIds s)
  split
  · rfl
  · refine (life_correctListActive _ _ _).trans ?_
    exact (life_pruneListActiveIds _).trans rfl

theorem life_casSchedulerEntry (s : Queue) (name : String) (old : Option SchedulerEntry)
    (new : SchedulerEntry) : (casSchedulerEntry s name old new).1.life = s.life := by
  unfold casSchedulerEntry
  split <;> rfl

theorem life_schedulerAwaitInflight (s : Queue) (name : String) (J : JobId) (old : SchedulerEntry) :
    (schedulerAwaitInflight s name J old).1.life = s.life := by
  unfold schedulerAwaitInflight
  repeat' split
  all_goals rfl

theorem life_readGroup (s : Queue) (group : Group) (consumer : String) :
    (readGroup s group consumer).life = s.life := by
  unfold readGroup
  split <;> rfl

theorem call_qsteps (s : Queue) (call : Call) :
    QSteps s (some call) (none, s) (none, call.run s) := by
  cases call with
  | addJob a => exact addJob_qsteps s a
  | dedup a => exact dedup_qsteps s a
  | promote now serverNow => exact promote_qsteps s now serverNow
  | promoteRateLimited now serverNow => exact promoteRateLimited_qsteps s now serverNow
  | complete a => exact complete_qsteps s a
  | completeAndFetchNext a => exact completeAndFetchNext_qsteps s a
  | fail a requeueOnly => exact fail_qsteps s a requeueOnly
  | failAndFetchNext a consumer => exact failAndFetchNext_qsteps s a consumer
  | reclaimStalled a visited => exact reclaimStalled_qsteps s a visited
  | reclaimStalledListJobs a scan => exact reclaimStalledListJobs_qsteps s a scan
  | getActiveListJobIds scan => exact .of_life (life_activeListIds s scan)
  | healListActive scan => exact .of_life (life_healListActive s scan)
  | rpopAndReserve k group count => exact rpopAndReserve_qsteps s k group count
  | popLists count => exact popLists_qsteps s count
  | popListsReserve count => exact popListsReserve_qsteps s count
  | moveToActive a => exact moveToActive_qsteps s a
  | deferActive a => exact deferActive_qsteps s a
  | removeJob J serverNow => exact removeJob_qsteps s J serverNow
  | clean t cutoff limit => exact clean_qsteps s t cutoff limit
  | revoke J timestamp serverNow group => exact revoke_qsteps s J timestamp serverNow group
  | changePriority J newPriority group => exact changePriority_qsteps s J newPriority group
  | changeDelay J newDelay now group => exact changeDelay_qsteps s J newDelay now group
  | promoteJob J => exact promoteJob_qsteps s J
  | moveActiveToDelayed a delayedUntil => exact moveActiveToDelayed_qsteps s a delayedUntil
  | moveToWaitingChildren a => exact moveToWaitingChildren_qsteps s a
  | suspend a timeout => exact suspend_qsteps s a timeout
  | signal J => exact signal_qsteps s J
  | sweepSuspended now serverNow => exact sweepSuspended_qsteps s now serverNow
  | rateLimitGroup a => exact rateLimitGroup_qsteps s a
  | rateLimitGroupExternal gk duration timestamp extendMax =>
    exact rateLimitGroupExternal_qsteps s gk duration timestamp extendMax
  | drain drainDelayed group serverNow => exact drain_qsteps s drainDelayed group serverNow
  | retryJobs count timestamp => exact retryJobs_qsteps s count timestamp
  | retryJob J timestamp => exact retryJob_qsteps s J timestamp
  | registerChildDep parentId m => exact registerChildDep_qsteps s parentId m
  | completeChild parentId m => exact completeParentDependency_qsteps s parentId m
  | healEarlyDeps page => exact healEarlyDeps_qsteps s page
  | casSchedulerEntry name old new => exact .of_life (life_casSchedulerEntry s name old new)
  | schedulerAwaitInflight name J old => exact .of_life (life_schedulerAwaitInflight s name J old)
  | readGroup group consumer => exact .of_life (life_readGroup s group consumer)
  | pause => exact .of_life rfl
  | resume => exact .of_life rfl
  | releaseReservation n => exact .of_life rfl
  | setGlobalConcurrency n => exact .of_life rfl
  | removeNotification n => exact .of_life rfl

/-- The call that a system call makes on a queue, if it is one on a single queue. -/
def SysCall.at : SysCall → QueueName → Option Call
  | .on p c, q => if p = q then some c else none
  | .addFlow _, _ => none
  | .registerParent _ _, _ => none

theorem sysStep_qsteps (S : Sys) (call : SysCall) (q : QueueName) :
    QSteps (S q) (call.at q) (none, S q) (none, sysStep S call q) := by
  cases call with
  | on p c =>
    simp only [sysStep, onQueue, SysCall.at]
    by_cases h : p = q
    · subst h
      simpa using call_qsteps (S p) c
    · rw [if_neg h, Function.update_of_ne (Ne.symm h)]
  | addFlow a => exact addFlow_steps S a q
  | registerParent child parent => exact registerParent_steps none S child parent q

end

end GlideMq
