import GlideMq.Model.Broadcast
import GlideMq.Model.Calls

/-!
# Calls in broadcast mode

The functions that a worker of a subscription calls with `broadcastMode = '1'`, on the keys of the same
queue. A claim's entry is acknowledged in the one group and stays in the stream, retention deletes
nothing, and what one subscription notes about a message is in the hash `job:<id>:sub:<group>`.
-/

namespace GlideMq

open Queue Redis

/-- The hash `job:<id>:sub:<group>`. -/
structure SubHash where
  /-- The field `a`. -/
  attemptsMade : Nat := 0
  /-- The field `s`. -/
  stalledCount : Nat := 0
  /-- The field `la`. -/
  lastActive : Option Int := none
  /-- The field `hb`. -/
  handedBack : Bool := false
  deriving DecidableEq

/-- The fields of `job:<id>` that only broadcast mode writes. -/
structure Marks where
  bcastHeld : Int := 0
  bcastEntry : Option Nat := none
  deriving DecidableEq

/-- A queue, and what its subscriptions and its trims keep besides. -/
structure Fanout where
  queue : Queue
  /-- Of the hashes that are there. -/
  marks : JobId → Marks := fun _ => {}
  subs : JobId → Group → SubHash := fun _ _ => {}
  held : SortedSet HeldClaim := ∅
  /-- The groups of `XINFO GROUPS`. -/
  groups : List Group := []

namespace Fanout

def setQueue (f : Fanout) (s : Queue) : Fanout := { f with queue := s }

def hsetSub (f : Fanout) (J : JobId) (group : Group) (w : SubHash → SubHash) : Fanout :=
  { f with subs := Function.update f.subs J (Function.update (f.subs J) group (w (f.subs J group))) }

end Fanout

/-- The scheduled member of a subscription's retry. -/
def retryMember (J : JobId) (group : Group) : String := J ++ "||" ++ group

/-- The stream entry of a claim, acknowledged only. -/
def ackOnly (s : Queue) (group : Group) (entryId : Option Nat) : Queue :=
  match entryId with
  | none => s
  | some e => s.xack group e

/-! ## Settling -/

/-- Retention deletes nothing. -/
def completeBroadcast (s : Queue) (a : CompleteArgs) : Queue × Option (List ParentNotify) :=
  let J := a.jobId
  let cur := s.job J
  if cur.revoked then (s, none)
  else
    let processedOn := cur.processedOn.getD a.timestamp
    let s := ackOnly s a.group a.entryId
    if cur.state = none then (forgetListClaim s J a.entryId, some [])
    else
      let s := markCompleted s J .keep a.timestamp
      let s := markOrderingDone s J none none
      let s := releaseGroupSlotAndPromote s J a.timestamp a.serverNow none false
      let s :=
        if a.skipMetrics then s else recordCompleted s a.timestamp (a.timestamp - processedOn)
      let (s, ns) := enqueueTreeParentNotifies s J cur.parentQueue cur.parentId cur.replacedIds
      let (s, ns) := completeParents s J cur.parentQueue cur.parentId ns
      (settleListClaim s J a.entryId, some ns)

/-- The next job is not fetched. -/
def completeAndFetchNextBroadcast (s : Queue) (a : CompleteNextArgs) : Queue × Option ChainReply :=
  let J := a.jobId
  let cur := s.job J
  if cur.revoked then (s, none)
  else
    let s := ackOnly (beginChain s) a.group a.entryId
    let (s, ns) :=
      if cur.state = none then (forgetListClaim s J a.entryId, [])
      else completeInChain s { a with retention := .keep } cur
    let (s, reply) := finishChainReply s .none ns
    (s, some reply)

/-- The retry is for one subscription. -/
def failRetryBroadcast (s : Queue) (a : FailArgs) (requeueOnly : Bool) : Queue :=
  let J := a.jobId
  let s :=
    if ¬ requeueOnly ∧ (s.job J).opts.fallbacks then
      s.hset J fun j => { j with fallbackIndex := j.fallbackIndex + 1 }
    else s
  let retryAt := a.timestamp + a.backoffDelay
  let s := s.zaddScheduled (retryMember J a.group) ((s.job J).priority * priorityShift + retryAt)
  let s := s.hset J fun j =>
    { j with
      state := some .delayed
      failedReason := if requeueOnly then j.failedReason else some a.failedReason
      processedOn := some a.timestamp }
  let s :=
    if 0 < (s.job J).orderingSeq then s.hset J ({ · with retainedSlot := true })
    else releaseGroupSlotAndPromote s J a.timestamp a.serverNow none false
  settleListClaim s J a.entryId

/-- The attempts are those of the subscription. -/
def failBroadcast (f : Fanout) (a : FailArgs) (requeueOnly : Bool) : Fanout × FailResult :=
  let J := a.jobId
  let processedOn := (f.queue.job J).processedOn.getD a.timestamp
  let s := ackOnly f.queue a.group a.entryId
  if s.jobs J = none then (f.setQueue (forgetListClaim s J a.entryId), .removed)
  else
    let f :=
      if requeueOnly then f
      else f.hsetSub J a.group fun h => { h with attemptsMade := h.attemptsMade + 1 }
    let attemptsMade := (f.subs J a.group).attemptsMade
    if requeueOnly ∨ (0 < a.maxAttempts ∧ attemptsMade < a.maxAttempts) then
      (f.setQueue (failRetryBroadcast s a requeueOnly), .retrying)
    else (f.setQueue (failFinal s { a with retention := .keep } processedOn), .failed)

def failAndFetchNextBroadcast (f : Fanout) (a : FailArgs) : Fanout × FailResult × ChainReply :=
  let (f, result) := failBroadcast (f.setQueue (beginChain f.queue)) a false
  let (s, reply) := finishChainReply f.queue .none []
  (f.setQueue s, result, reply)

/-! ## Activation -/

/-- As `claimInGroup`, without the deletion of the entry. -/
def claimInGroupBroadcast (s : Queue) (a : MoveArgs) (gk : GroupKey) : Queue × ActivationResult :=
  let J := a.jobId
  let job := s.job J
  let seq := job.orderingSeq
  let (s, nextSeq) := if 0 < seq then skipToNext s gk (s.groups gk).nextSeq else (s, 0)
  if 0 < nextSeq ∧ nextSeq < seq then (park (ackOnly s a.group a.entryId) gk J seq, .groupOrdered)
  else
    let returning : Bool := 0 < nextSeq ∧ seq < nextSeq
    let g := s.groups gk
    if 0 < g.maxConcurrency ∧ g.maxConcurrency ≤ g.active ∧ ¬ returning then
      let s := ackOnly s a.group a.entryId
      (park s gk J (groupqScore s J), .groupFull)
    else
      let (s, tokens) := refill s gk a.serverNow
      let cost := job.cost.getD 1000
      if 0 < g.tbCapacity ∧ g.tbCapacity < cost then
        let s := failOversize (ackOnly s a.group a.entryId) J gk a.timestamp
        (closeOrderingHoleAndPromote s J a.timestamp a.serverNow, .costExceedsCapacity)
      else
        let tb := tokenDelay g tokens cost
        let rl := windowDelay g a.timestamp
        if (tb.isSome ∨ rl.isSome) ∧ ¬ returning then
          let s := ackOnly s a.group a.entryId
          let s := park s gk J (groupqScore s J)
          (s.zaddRatelimited gk (a.timestamp + max (tb.getD 0) (rl.getD 0)),
            if tb.isSome then .tokenLimited else .rateLimited)
        else
          let s := chargeGroup s gk cost a.timestamp
          let s := if returning then s else takeSlot s gk seq
          let s := if 0 < seq then s.zremGroupq gk J else s
          let s := activate s J a.timestamp a.entryId.isNone
          (s, .active (claimedFields job a.timestamp))

/-- Subscriptions share the hash, so its state does not stop a claim. The global limit is not looked
at. -/
def moveToActiveClaimBroadcast (s : Queue) (a : MoveArgs) : Queue × ActivationResult :=
  let J := a.jobId
  match s.jobs J with
  | none => (s, .missing)
  | some job =>
    if job.revoked then (s, .revoked)
    else if s.paused then (s, .paused)
    else if isExpired job a.timestamp then
      let s := expireJob s J a.timestamp a.serverNow job.state job.orderingKey
        (some job.orderingSeq) job.groupKey
      (ackOnly s a.group a.entryId, .expired)
    else
      match job.groupKey with
      | some gk => claimInGroupBroadcast s a gk
      | none =>
        let s := activate s J a.timestamp a.entryId.isNone
        (s, .active (claimedFields job a.timestamp))

/-- The bookkeeping of a list claim, as in `moveToActive`. -/
def noteListClaim (s : Queue) (J : JobId) (result : ActivationResult) : Queue :=
  match result with
  | .active _ => (s.saddListActiveIds [J]).dropClaim J
  | _ => if result.releasesListClaim then (s.sremListActiveIds J).dropClaim J else s

/-- The heartbeat is that of the subscription. -/
def moveToActiveBroadcast (f : Fanout) (a : MoveArgs) : Fanout × ActivationResult :=
  let (s, result) := moveToActiveClaimBroadcast f.queue a
  let f := f.setQueue (if a.entryId = none then noteListClaim s a.jobId result else s)
  match result with
  | .active _ =>
    (f.hsetSub a.jobId a.group fun h => { h with lastActive := some a.timestamp, handedBack := false },
      result)
  | _ => (f, result)

/-! ## Handing back -/

/-- The entry is pending at this consumer. -/
def isOwned (s : Queue) (group : Group) (consumer : String) (entryId : Nat) : Bool :=
  (s.stream.groups group).pel.any fun p => p.id = entryId ∧ p.consumer = consumer

/-- A claim that a pause sends back stays pending, and is marked unless another consumer has taken it.
The consumer may be left out. -/
def deferActiveBroadcast (f : Fanout) (a : DeferArgs) (consumer : String) : Fanout × Bool :=
  let J := a.jobId
  if a.pausedRestore then
    let owned := consumer = "" ∨ ∀ e ∈ a.entryId, isOwned f.queue a.group consumer e
    (if owned ∧ f.queue.jobs J ≠ none then f.hsetSub J a.group ({ · with handedBack := true }) else f,
      false)
  else
    let s := ackOnly f.queue a.group a.entryId
    let s := settleListClaim s J a.entryId
    if s.jobs J = none then (f.setQueue s, false)
    else
      let s := (s.xaddJob J).setState J .waiting
      (f.setQueue (if a.undoGroupClaim then undoClaim s J else s), true)

/-- `XCLAIM` of one entry that was parked here. Of an entry that is deleted the claim goes. -/
def recoverBroadcastClaim (group : Group) (consumer : String) (f : Fanout) (entryId : Nat) : Fanout :=
  if isOwned f.queue group consumer entryId then
    match f.queue.stream.entries.find? (·.id = entryId) with
    | some e => f.hsetSub e.val.jobId group ({ · with handedBack := false })
    | none => f.setQueue (f.queue.xack group entryId)
  else f

def recoverBroadcastClaims (f : Fanout) (group : Group) (consumer : String) (entryIds : List Nat) :
    Fanout :=
  entryIds.foldl (recoverBroadcastClaim group consumer) f

/-! ## Stalled claims -/

/-- The writes of a job that stalled too often. -/
def failStalled (s : Queue) (J : JobId) (timestamp serverNow : Int) : Queue :=
  let processedOn := (s.job J).processedOn.getD timestamp
  let s := (s.zaddFailed J timestamp).setFailed J stalledReason timestamp
  let s := advanceRepeatAfterComplete s J timestamp
  let s := markOrderingDone s J none none
  let s := releaseGroupSlotAndPromote s J timestamp serverNow none false
  recordFailed s timestamp (timestamp - processedOn)

/-- Stalls are counted for each subscription. A claim that was handed back has not stalled. Returns
whether the job failed. -/
def applyStalledLogicBroadcast (f : Fanout) (J : JobId) (a : ReclaimArgs) : Fanout × Bool :=
  if (f.subs J a.group).handedBack then
    (f.hsetSub J a.group ({ · with handedBack := false }), false)
  else
    let f := f.hsetSub J a.group fun h => { h with stalledCount := h.stalledCount + 1 }
    if a.maxStalledCount < (f.subs J a.group).stalledCount then
      (f.setQueue (failStalled f.queue J a.timestamp a.serverNow), true)
    else (f, false)

/-- One entry of the `XAUTOCLAIM` reply. It stays with the consumer that claimed it, which may run it
again (`redispatch`). -/
def reclaimEntryBroadcast (a : ReclaimArgs) (redispatch : Bool) (f : Fanout)
    (e : Redis.Entry JobEntry) : Fanout :=
  let J := e.val.jobId
  if f.queue.jobs J = none then f.setQueue (f.queue.xack a.group e.id)
  else
    match checkExpired f.queue J a.timestamp a.serverNow with
    | (s, true) => f.setQueue (s.xack a.group e.id)
    | (s, false) =>
      let job := s.job J
      let lastActive := (f.subs J a.group).lastActive <|> job.lastActive
      let idle := effectiveIdle job.opts a.workerLockDuration a.minIdleMs
      if ∃ t ∈ lastActive, a.timestamp - t < idle then f.setQueue s
      else
        match applyStalledLogicBroadcast (f.setQueue s) J a with
        | (f, true) => f.setQueue (f.queue.xack a.group e.id)
        | (f, false) =>
          let f := f.setQueue (f.queue.setState J .active)
          if redispatch then f.hsetSub J a.group ({ · with lastActive := some a.timestamp }) else f

def reclaimStalledBroadcast (f : Fanout) (a : ReclaimArgs) (redispatch : Bool) (visited : Nat → Bool) :
    Fanout :=
  if f.queue.paused then f
  else
    let entries := f.queue.stream.claimable a.group visited
    entries.foldl (reclaimEntryBroadcast a redispatch)
      (f.setQueue (f.queue.autoclaim a.group a.consumer visited))

/-! ## Postponing -/

/-- The retry is a member without a subscription, as in a standard queue. -/
def moveActiveToDelayedBroadcast (s : Queue) (a : PostponeArgs) (delayedUntil : Int) :
    Queue × PostponeResult :=
  let J := a.jobId
  if s.jobs J = none then (s, .notFound)
  else if s.stateOf J ≠ some .active then (s, .notActive)
  else
    let until' := max delayedUntil a.now
    let s := ackOnly s a.group a.entryId
    let s := s.zaddScheduled J ((s.job J).priority * priorityShift + until')
    let s := (s.setState J .delayed).setDelay J (until' - a.now)
    let s := settleListClaim s J a.entryId
    (keepOrReleaseSlot s J a.now a.serverNow, .ok)

def moveToWaitingChildrenBroadcast (s : Queue) (a : PostponeArgs) : Queue × PostponeResult :=
  let J := a.jobId
  if s.stateOf J = none then (s, .notFound)
  else if s.stateOf J ≠ some .active then (s, .notActive)
  else
    let s := (ackOnly s a.group a.entryId).setState J .waitingChildren
    let s := keepOrReleaseSlot s J a.now a.serverNow
    let s := (countEarlyDeps s J).1
    if (s.deps J).length ≤ (s.job J).depsCompleted then
      (settleListClaim ((s.setState J .waiting).xaddJob J) J a.entryId, .completed)
    else (settleListClaim s J a.entryId, .ok)

def suspendBroadcast (s : Queue) (a : PostponeArgs) (timeout : Int) : Queue × PostponeResult :=
  let J := a.jobId
  if s.stateOf J = none then (s, .notFound)
  else if s.stateOf J ≠ some .active then (s, .notActive)
  else
    let s := (ackOnly s a.group a.entryId).setState J .suspended
    let s := s.zaddSuspended J (if 0 < timeout then a.now + timeout else noDeadline)
    let s := keepOrReleaseSlot s J a.now a.serverNow
    (settleListClaim s J a.entryId, .ok)

def rateLimitGroupBroadcast (s : Queue) (a : RateLimitArgs) : Queue × RateLimitResult :=
  let J := a.jobId
  if s.stateOf J ≠ some .active then (s, .notActive)
  else
    match (s.job J).groupKey with
    | none => (s, .noGroup)
    | some gk =>
      let s := ackOnly s a.group a.entryId
      let s := settleListClaim s J a.entryId
      let keepSlot : Bool := a.requeue ∧ 0 < (s.job J).orderingSeq
      let s :=
        if keepSlot then s
        else (dropReturning s J gk).hgroup gk GroupHash.decrActive
      let s :=
        if a.requeue then requeueInGroup s gk J a.front keepSlot
        else failRateLimited s J a.timestamp
      let (s, t) := pauseGroup s gk (a.timestamp + a.duration) a.extendMax
      (s, .resumeAt t)

/-! ## Trimming -/

namespace Fanout

/-- The keys that trimming works on. -/
def broadcast (f : Fanout) : Broadcast where
  stream := f.queue.stream
  groups := f.groups
  jobs J :=
    (f.queue.jobs J).map fun j =>
      { state := j.state, bcastHeld := (f.marks J).bcastHeld, bcastEntry := (f.marks J).bcastEntry }
  attempts J group := (f.subs J group).attemptsMade
  held := f.held
  scheduled
    | J, none => f.queue.scheduled.score J
    | J, some group => f.queue.scheduled.score (retryMember J group)
  completed := f.queue.completed.score
  failed := f.queue.failed.score

/-- A message that the trim deleted. -/
def deletedIn (f : Fanout) (b : Broadcast) (J : JobId) : Bool :=
  (f.queue.jobs J).isSome && (b.jobs J).isNone

/-- The same keys after a trim. -/
def withBroadcast (f : Fanout) (b : Broadcast) : Fanout where
  queue :=
    { f.queue with
      stream := b.stream
      jobs := fun J => if f.deletedIn b J then none else f.queue.jobs J
      completed := f.queue.completed.remAll (f.queue.completed.members.filter (f.deletedIn b))
      failed := f.queue.failed.remAll (f.queue.failed.members.filter (f.deletedIn b)) }
  marks J := ((b.jobs J).map fun m => ⟨m.bcastHeld, m.bcastEntry⟩).getD {}
  subs J group := if f.deletedIn b J ∧ group ∈ f.groups then {} else f.subs J group
  held := b.held
  groups := f.groups

def trimBroadcast (f : Fanout) (maxLen : Nat) (timestamp : Int) : Fanout × (Nat × Nat) :=
  let (b, reply) := GlideMq.trimBroadcast f.broadcast maxLen timestamp
  (f.withBroadcast b, reply)

/-- `XGROUP CREATE`. -/
def subscribe (f : Fanout) (group : Group) (startId : Nat) : Fanout :=
  if group ∈ f.groups then f
  else
    { f with
      groups := f.groups ++ [group]
      queue := { f.queue with stream := f.queue.stream.setGroup group { lastDelivered := startId } } }

/-! ## Runs -/

/-- What else is right after a call of a standard queue: the marks go with their hash, and the newest
retry entry is marked (`glidemq_promote`). -/
def afterCall (f : Fanout) (s : Queue) : Fanout :=
  let retries := s.stream.entries.filter fun e => f.queue.stream.lastId < e.id ∧ e.val.retryGroup.isSome
  { f with
    queue := s
    marks := fun J =>
      if (s.jobs J).isNone then {}
      else
        match (retries.filter (·.val.jobId = J)).getLast? with
        | some e => { f.marks J with bcastEntry := some e.id }
        | none => f.marks J }

end Fanout

/-- A call in broadcast mode. The last group is what a worker does with plain commands, and the end of
a subscription's hash when its time to live is over. -/
inductive SubscriptionCall where
  | complete (a : CompleteArgs)
  | completeAndFetchNext (a : CompleteNextArgs)
  | fail (a : FailArgs) (requeueOnly : Bool)
  | failAndFetchNext (a : FailArgs)
  | moveToActive (a : MoveArgs)
  | deferActive (a : DeferArgs) (consumer : String)
  | recoverBroadcastClaims (group : Group) (consumer : String) (entryIds : List Nat)
  | reclaimStalled (a : ReclaimArgs) (redispatch : Bool) (visited : Nat → Bool)
  | moveActiveToDelayed (a : PostponeArgs) (delayedUntil : Int)
  | moveToWaitingChildren (a : PostponeArgs)
  | suspend (a : PostponeArgs) (timeout : Int)
  | rateLimitGroup (a : RateLimitArgs)
  | trimBroadcast (maxLen : Nat) (timestamp : Int)
  | subscribe (group : Group) (startId : Nat)
  /-- `XACK` of an entry that the subscription skips. -/
  | skipEntry (group : Group) (entryId : Nat)
  | expireSub (J : JobId) (group : Group)

def SubscriptionCall.run (f : Fanout) : SubscriptionCall → Fanout
  | .complete a => f.setQueue (completeBroadcast f.queue a).1
  | .completeAndFetchNext a => f.setQueue (completeAndFetchNextBroadcast f.queue a).1
  | .fail a requeueOnly => (failBroadcast f a requeueOnly).1
  | .failAndFetchNext a => (failAndFetchNextBroadcast f a).1
  | .moveToActive a => (moveToActiveBroadcast f a).1
  | .deferActive a consumer => (deferActiveBroadcast f a consumer).1
  | .recoverBroadcastClaims group consumer entryIds =>
    GlideMq.recoverBroadcastClaims f group consumer entryIds
  | .reclaimStalled a redispatch visited => reclaimStalledBroadcast f a redispatch visited
  | .moveActiveToDelayed a delayedUntil => f.setQueue (moveActiveToDelayedBroadcast f.queue a delayedUntil).1
  | .moveToWaitingChildren a => f.setQueue (moveToWaitingChildrenBroadcast f.queue a).1
  | .suspend a timeout => f.setQueue (suspendBroadcast f.queue a timeout).1
  | .rateLimitGroup a => f.setQueue (rateLimitGroupBroadcast f.queue a).1
  | .trimBroadcast maxLen timestamp => (f.trimBroadcast maxLen timestamp).1
  | .subscribe group startId => f.subscribe group startId
  | .skipEntry group entryId => f.setQueue (f.queue.xack group entryId)
  | .expireSub J group => f.hsetSub J group fun _ => {}

/-- A server whose queues may have subscriptions. -/
abbrev FanoutSys := QueueName → Fanout

def FanoutSys.queues (F : FanoutSys) : Sys := fun q => (F q).queue

/-- A call on a server whose queues may have subscriptions. -/
inductive FanoutCall where
  | standard (c : SysCall)
  | broadcast (q : QueueName) (c : SubscriptionCall)

def fanoutStep (F : FanoutSys) : FanoutCall → FanoutSys
  | .standard c => fun q => (F q).afterCall (sysStep F.queues c q)
  | .broadcast q c => Function.update F q (c.run (F q))

end GlideMq
