import GlideMq.Model.Add
import GlideMq.Model.Stalled

/-!
# Managing jobs

What a client or a running job asks for: remove, revoke, retry, reschedule, postpone, wait for
children, pause a group, suspend, and the sweeps that clear whole containers.
-/

namespace GlideMq

open Queue

/-! ## Pausing -/

def pause (s : Queue) : Queue := s.setPaused true

def resume (s : Queue) : Queue := s.setPaused false

/-! ## Removal -/

/-- The first stream entry of a job. -/
def firstEntry (s : Queue) (J : JobId) : Option (Redis.Entry JobEntry) :=
  s.stream.entries.find? (fun e => e.val.jobId = J)

/-- Clears the first stream entry of a job from every group and deletes it. -/
def removeEntry (s : Queue) (J : JobId) : Queue :=
  match firstEntry s J with
  | none => s
  | some e => (s.xackAll e.id).xdel e.id

/-- Returns whether the job existed, and the parent notifications. -/
def removeJob (s : Queue) (J : JobId) (serverNow : Int) : Queue × Option (List ParentNotify) :=
  match s.jobs J with
  | none => (s, none)
  | some job =>
    let st := job.state
    let s :=
      match job.groupKey with
      | none => s
      | some gk =>
        if st = some .active then releaseGroupSlotAndPromote s J 0 serverNow none false
        else
          let s := if st = some .groupWaiting then s.zremGroupq gk J else s
          closeOrderingHoleAndPromote s J 0 serverNow
    let listClaim := decide (st = some .active) && isListSourced (s.job J)
    let s := if listClaim then decrListActive s J else s
    let s := ((s.zremScheduled J).zremCompleted J).zremFailed J
    let inList := decide (J ∈ s.lifoList) || decide (J ∈ s.priorityList)
    let s := (s.lremLifo J).lremPriority J
    let s := markOrderingDone s J none none
    let s :=
      if (st = some .waiting ∨ (st = some .active ∧ ¬ listClaim)) ∧ ¬ inList then removeEntry s J
      else s
    let (s, ns) :=
      if st ≠ some .completed then resolveRemovedChildParents s J (readChildParents s J)
      else (s, [])
    ((((s.unlinkParents J).unlinkDeps J).unlinkJob J).zremSuspended J, some ns)

/-- The keys of one job that `clean` deletes. -/
def unlinkCleaned (s : Queue) (J : JobId) : Queue :=
  ((s.unlinkJob J).unlinkDeps J).unlinkParents J

/-- Deletes up to `limit` jobs of a terminal set that ended by the cutoff. -/
def clean (s : Queue) (t : TerminalSet) (cutoff : Int) (limit : Nat) : Queue × List JobId :=
  let ids :=
    (((s.terminalSet t).items.filter (fun p => p.2 ≤ cutoff)).take limit).map Prod.fst
  (ids.foldl (fun s J => s.zremTerminal t J) (ids.foldl unlinkCleaned s), ids)

/-! ## Revocation -/

inductive RevokeResult where
  | notFound
  | revoked
  | flagged
  deriving DecidableEq

def Queue.setRevoked (s : Queue) (J : JobId) (timestamp : Int) : Queue :=
  (s.zaddFailed J timestamp).setFailed J "revoked" timestamp

/-- A revoked job that waits in a container is failed, in other states it is only flagged. -/
def revoke (s : Queue) (J : JobId) (timestamp serverNow : Int) (group : Group) :
    Queue × RevokeResult :=
  if s.jobs J = none then (s, .notFound)
  else
    let s := s.hset J ({ · with revoked := true })
    match s.stateOf J with
    | some .groupWaiting =>
      let s :=
        match (s.job J).groupKey with
        | none => s
        | some gk => s.zremGroupq gk J
      let s := markOrderingDone s J none none
      let s := closeOrderingHoleAndPromote s J timestamp serverNow
      (s.setRevoked J timestamp, .revoked)
    | some .waiting | some .delayed | some .prioritized =>
      let waiting := decide (s.stateOf J = some .waiting)
      let inList := decide (J ∈ s.lifoList) || decide (J ∈ s.priorityList)
      let s := ((s.zremScheduled J).lremLifo J).lremPriority J
      let s :=
        if waiting ∧ ¬ inList then ackDel s group ((firstEntry s J).map Redis.Entry.id) else s
      let s := s.setRevoked J timestamp
      let s := markOrderingDone s J none none
      (closeOrderingHoleAndPromote s J timestamp serverNow, .revoked)
    | _ => (s, .flagged)

/-! ## Rescheduling -/

inductive ChangeResult where
  | ok
  | noOp
  | notFound
  | invalidArg
  | invalidState
  | notInStream
  | notInScheduled
  deriving DecidableEq

/-- Takes a waiting job out of its list or its first stream entry. `none` when it is in none of
them. -/
def detachWaitingJob (s : Queue) (group : Group) (J : JobId) : Option Queue :=
  if J ∈ s.priorityList then some (s.lremPriority J)
  else if J ∈ s.lifoList then some (s.lremLifo J)
  else (firstEntry s J).map fun e => ackDel s group (some e.id)

def Queue.setPriority (s : Queue) (J : JobId) (priority : Nat) : Queue :=
  s.hset J ({ · with priority })

def changePriority (s : Queue) (J : JobId) (newPriority : Nat) (group : Group) :
    Queue × ChangeResult :=
  if maxPriority < newPriority then (s, .invalidArg)
  else if s.jobs J = none then (s, .notFound)
  else
    let score : Int := newPriority * priorityShift
    match s.stateOf J with
    | some .waiting =>
      if newPriority = 0 then
        if J ∈ s.priorityList then
          let s := s.lremPriority J
          let s := if (s.job J).lifo then s.rpushLifo J else s.xaddJob J
          (s.setPriority J 0, .ok)
        else if (s.job J).priority = 0 then (s, .noOp)
        else (s.setPriority J 0, .ok)
      else
        match detachWaitingJob s group J with
        | none => (s, .notInStream)
        | some s =>
          (((s.zaddScheduled J score).setState J .prioritized).setPriority J newPriority, .ok)
    | some .prioritized =>
      if newPriority = 0 then
        ((((s.zremScheduled J).xaddJob J).setState J .waiting).setPriority J 0, .ok)
      else ((s.zaddScheduled J score).setPriority J newPriority, .ok)
    | some .delayed =>
      match s.scheduled.score J with
      | none => (s, .notInScheduled)
      | some oldScore =>
        (((s.zremScheduled J).zaddScheduled J (score + oldScore % priorityShift)).setPriority J
          newPriority, .ok)
    | _ => (s, .invalidState)

def Queue.setDelay (s : Queue) (J : JobId) (delay : Int) : Queue := s.hset J ({ · with delay })

/-- `ZADD XX`: only a member that is present gets the score. -/
def Queue.zaddScheduledXX (s : Queue) (J : JobId) (x : Int) : Queue :=
  if J ∈ s.scheduled then s.zaddScheduled J x else s

def changeDelay (s : Queue) (J : JobId) (newDelay now : Int) (group : Group) :
    Queue × ChangeResult :=
  if newDelay < 0 then (s, .invalidArg)
  else if s.jobs J = none then (s, .notFound)
  else
    match s.stateOf J with
    | some .delayed =>
      match s.scheduled.score J with
      | none => (s, .notInScheduled)
      | some oldScore =>
        let priority := oldScore / priorityShift
        if newDelay = 0 then
          if 0 < priority then
            (((s.zaddScheduledXX J (priority * priorityShift)).setState J .prioritized).setDelay J 0,
              .ok)
          else ((((s.zremScheduled J).xaddJob J).setState J .waiting).setDelay J 0, .ok)
        else
          ((s.zaddScheduledXX J (priority * priorityShift + (now + newDelay))).setDelay J newDelay,
            .ok)
    | some .waiting =>
      if newDelay = 0 then (s, .noOp)
      else
        let score := (s.job J).priority * priorityShift + (now + newDelay)
        match detachWaitingJob s group J with
        | none => (s, .notInStream)
        | some s =>
          (((s.zaddScheduled J score).setState J .delayed).setDelay J newDelay, .ok)
    | some .prioritized =>
      if newDelay = 0 then (s, .noOp)
      else
        match s.scheduled.score J with
        | none => (s, .notInScheduled)
        | some oldScore =>
          let score := oldScore / priorityShift * priorityShift + (now + newDelay)
          (((s.zaddScheduledXX J score).setState J .delayed).setDelay J newDelay, .ok)
    | _ => (s, .invalidState)

def promoteJob (s : Queue) (J : JobId) : Queue × ChangeResult :=
  if s.jobs J = none then (s, .notFound)
  else if s.stateOf J ≠ some .delayed then (s, .invalidState)
  else
    let s := s.zremScheduled J
    let s :=
      if (s.job J).lifo then s.rpushLifo J
      else if 0 < (s.job J).priority then s.lpushPriority J
      else s.xaddJob J
    ((s.setState J .waiting).setDelay J 0, .ok)

/-! ## Postponing an active job -/

/-- An ordered job keeps its slot, another one gives it back. -/
def keepOrReleaseSlot (s : Queue) (J : JobId) (now serverNow : Int) : Queue :=
  if 0 < (s.job J).orderingSeq then s.hset J ({ · with retainedSlot := true })
  else releaseGroupSlotAndPromote s J now serverNow none false

structure PostponeArgs where
  jobId : JobId
  entryId : Option Nat
  group : Group
  now : Int
  serverNow : Int
  deriving DecidableEq

inductive PostponeResult where
  | ok
  | completed
  | notFound
  | notActive
  deriving DecidableEq

def moveActiveToDelayed (s : Queue) (a : PostponeArgs) (delayedUntil : Int) :
    Queue × PostponeResult :=
  let J := a.jobId
  if s.jobs J = none then (s, .notFound)
  else if s.stateOf J ≠ some .active then (s, .notActive)
  else
    let until' := max delayedUntil a.now
    let s := ackDel s a.group a.entryId
    let s := s.zaddScheduled J ((s.job J).priority * priorityShift + until')
    let s := (s.setState J .delayed).setDelay J (until' - a.now)
    let s := settleListClaim s J a.entryId
    (keepOrReleaseSlot s J a.now a.serverNow, .ok)

def moveToWaitingChildren (s : Queue) (a : PostponeArgs) : Queue × PostponeResult :=
  let J := a.jobId
  if s.stateOf J = none then (s, .notFound)
  else if s.stateOf J ≠ some .active then (s, .notActive)
  else
    let s := (ackDel s a.group a.entryId).setState J .waitingChildren
    let s := keepOrReleaseSlot s J a.now a.serverNow
    let s := (countEarlyDeps s J).1
    if (s.deps J).length ≤ (s.job J).depsCompleted then
      (settleListClaim ((s.setState J .waiting).xaddJob J) J a.entryId, .completed)
    else (settleListClaim s J a.entryId, .ok)

/-- Far enough ahead to stand for no timeout. -/
def noDeadline : Int := 9999999999999

def suspend (s : Queue) (a : PostponeArgs) (timeout : Int) : Queue × PostponeResult :=
  let J := a.jobId
  if s.stateOf J = none then (s, .notFound)
  else if s.stateOf J ≠ some .active then (s, .notActive)
  else
    let s := (ackDel s a.group a.entryId).setState J .suspended
    let s := s.zaddSuspended J (if 0 < timeout then a.now + timeout else noDeadline)
    let s := keepOrReleaseSlot s J a.now a.serverNow
    (settleListClaim s J a.entryId, .ok)

/-- Returns whether the job was suspended. -/
def signal (s : Queue) (J : JobId) : Queue × Bool :=
  if s.stateOf J = some .suspended then
    (((s.setState J .waiting).zremSuspended J).xaddJob J, true)
  else (s, false)

def suspendReason : String := "Suspend timeout exceeded"

/-- A suspended job past its deadline. Only an ordered one still holds a slot. -/
def failSuspended (s : Queue) (J : JobId) (now serverNow : Int) : Queue :=
  let job := s.job J
  let processedOn := job.processedOn.getD now
  let s := (s.zaddFailed J now).hset J fun j =>
    { j with
      state := some .failed
      failedReason := some suspendReason
      finishedOn := some now
      processedOn := some now }
  let s := advanceRepeatAfterComplete s J now
  let s := markOrderingDone s J job.orderingKey (some job.orderingSeq)
  let s :=
    if 0 < job.orderingSeq then releaseGroupSlotAndPromote s J now serverNow job.groupKey false
    else s
  recordFailed s now (now - processedOn)

def sweepSuspendedJob (now serverNow : Int) (s : Queue) (J : JobId) : Queue :=
  let s := if s.stateOf J = some .suspended then failSuspended s J now serverNow else s
  s.zremSuspended J

def sweepSuspended (s : Queue) (now serverNow : Int) : Queue :=
  (s.suspended.rangeByScore 0 now 100).foldl (sweepSuspendedJob now serverNow) s

/-! ## Pausing a group -/

structure RateLimitArgs where
  jobId : JobId
  entryId : Option Nat
  group : Group
  duration : Int
  timestamp : Int
  /-- The running job goes back to its group, or fails. -/
  requeue : Bool := true
  /-- In front of the group's parked jobs, or behind them. -/
  front : Bool := true
  /-- A longer pause is kept. -/
  extendMax : Bool := true
  deriving DecidableEq

inductive RateLimitResult where
  | notActive
  | noGroup
  | resumeAt (t : Int)
  deriving DecidableEq

/-- Records the pause. -/
def pauseGroup (s : Queue) (gk : GroupKey) (resumeAt : Int) (extendMax : Bool) : Queue × Int :=
  let resumeAt :=
    if extendMax then max resumeAt ((s.ratelimited.score gk).getD resumeAt) else resumeAt
  (s.zaddRatelimited gk resumeAt, resumeAt)

/-- The place in the wait queue of a job that goes back. -/
def requeueScore (s : Queue) (gk : GroupKey) (J : JobId) (front : Bool) : Int :=
  let seq := (s.job J).orderingSeq
  if front then seq
  else
    match (s.groupq gk).last? with
    | some (_, score) => score + 1
    | none => if 0 < seq then seq else (numericId J).getD 0

/-- Takes the slot and the mark of a returning job away. -/
def dropReturning (s : Queue) (J : JobId) (gk : GroupKey) : Queue :=
  (clearRetainedSlot s J).zremReturning gk J

def requeueInGroup (s : Queue) (gk : GroupKey) (J : JobId) (front keepSlot : Bool) : Queue :=
  let s := park s gk J (requeueScore s gk J front)
  if keepSlot then
    (s.hset J ({ · with retainedSlot := true })).zaddReturning gk J (s.job J).orderingSeq
  else dropReturning s J gk

def rateLimitReason : String := "group rate limited"

def failRateLimited (s : Queue) (J : JobId) (timestamp : Int) : Queue :=
  let processedOn := (s.job J).processedOn.getD timestamp
  let s := (s.zaddFailed J timestamp).hset J fun j =>
    { j with
      state := some .failed
      failedReason := some rateLimitReason
      finishedOn := some timestamp
      processedOn := some processedOn }
  let s := advanceRepeatAfterComplete s J timestamp
  markOrderingDone (recordFailed s timestamp (timestamp - processedOn)) J none none

def rateLimitGroup (s : Queue) (a : RateLimitArgs) : Queue × RateLimitResult :=
  let J := a.jobId
  if s.stateOf J ≠ some .active then (s, .notActive)
  else
    match (s.job J).groupKey with
    | none => (s, .noGroup)
    | some gk =>
      let s := ackDel s a.group a.entryId
      let s := settleListClaim s J a.entryId
      let keepSlot : Bool := a.requeue ∧ 0 < (s.job J).orderingSeq
      let s :=
        if keepSlot then s
        else (dropReturning s J gk).hgroup gk GroupHash.decrActive
      let s :=
        if a.requeue then requeueInGroup s gk J a.front keepSlot
        else failRateLimited s J a.timestamp
      let (s, t) := pauseGroup s gk (a.timestamp + a.duration) a.extendMax
      (s, .resumeAt t)

def rateLimitGroupExternal (s : Queue) (gk : GroupKey) (duration timestamp : Int)
    (extendMax : Bool) : Queue × Int :=
  pauseGroup s gk (timestamp + duration) extendMax

/-! ## Draining -/

/-- Closes the hole of a drained ordered job and notes its group. -/
def closeDrainedOrdering (r : Queue × List GroupKey) (J : JobId) : Queue × List GroupKey :=
  let (s, groups) := r
  match (s.job J).groupKey with
  | none => (s, groups)
  | some gk => (closeOrderingHole (markOrderingDone s J none none) J, groups.insert gk)

/-- The keys of one job that `drain` deletes. -/
def unlinkDrained (s : Queue) (J : JobId) : Queue := (s.unlinkJob J).unlinkDeps J

def drainJob (r : Queue × List GroupKey) (J : JobId) : Queue × List GroupKey :=
  let (s, groups) := closeDrainedOrdering r J
  (unlinkDrained s J, groups)

/-- The stream entries that no worker holds. -/
def undelivered (s : Queue) (group : Group) : List (Redis.Entry JobEntry) :=
  s.stream.entries.filter (fun e => ¬ s.stream.isPending group e.id)

def drainEntry (r : Queue × List GroupKey) (e : Redis.Entry JobEntry) : Queue × List GroupKey :=
  let (s, groups) := if e.val.jobId = "" then r else drainJob r e.val.jobId
  (s.xdel e.id, groups)

/-- One promotion for each group that lost a job, unless its pause goes on. -/
def promoteDrained (serverNow : Int) (s : Queue) (gk : GroupKey) : Queue :=
  if (s.ratelimited.score gk).getD 0 ≤ serverNow then
    releaseGroupSlotAndPromote s "" serverNow serverNow (some gk) true
  else s

def drain (s : Queue) (drainDelayed : Bool) (group : Group) (serverNow : Int) : Queue :=
  let r := (undelivered s group).foldl drainEntry (s, [])
  let r :=
    if drainDelayed then
      let (s, groups) := r.1.scheduled.members.foldl drainJob r
      (s.unlinkScheduled, groups)
    else r
  let (s, groups) := r.1.lifoList.foldl drainJob r
  let r := (s.unlinkLifo, groups)
  let (s, groups) := r.1.priorityList.foldl drainJob r
  groups.foldl (promoteDrained serverNow) s.unlinkPriority

/-! ## Retrying failed jobs -/

/-- Moves a failed job to the scheduled set for a fresh run. An ordered one gets a new
sequence. -/
def retryFailedJob (s : Queue) (J : JobId) (timestamp : Int) : Queue :=
  let job := s.job J
  let ttl := job.opts.ttl
  let key := if 0 < job.orderingSeq then job.orderingKey <|> job.groupKey else none
  let (s, newSeq) := issueSeq s key
  let s := s.zaddScheduled J (job.priority * priorityShift + timestamp)
  s.hset J fun j =>
    { j with
      state := some .delayed
      attemptsMade := 0
      failedReason := none
      finishedOn := none
      expireAt := if 0 < ttl then some (timestamp + ttl) else none
      orderingSeq := if key.isSome then newSeq else j.orderingSeq
      retainedSlot := false }

/-- One id of a batch: a job that is gone only leaves the set. -/
def retryOne (timestamp : Int) (r : Queue × Nat) (J : JobId) : Queue × Nat :=
  if r.1.jobs J = none then r else (retryFailedJob r.1 J timestamp, r.2 + 1)

/-- The batches of `retryJobs`. A batch empties its part of the failed set, so as many batches as
there are members are enough. -/
def retryBatches (count : Nat) (timestamp : Int) : Nat → Queue × Nat → Queue × Nat
  | 0, r => r
  | fuel + 1, (s, retried) =>
    if 0 < count ∧ count ≤ retried then (s, retried)
    else
      let ids := s.failed.take (if 0 < count then min 1000 (count - retried) else 1000)
      if ids = [] then (s, retried)
      else
        retryBatches count timestamp fuel
          (ids.foldl (retryOne timestamp) (ids.foldl zremFailed s, retried))

/-- Returns how many jobs were retried. A count of 0 means all. -/
def retryJobs (s : Queue) (count : Nat) (timestamp : Int) : Queue × Nat :=
  retryBatches count timestamp (s.failed.card + 1) (s, 0)

inductive RetryResult where
  | ok
  | notFound
  | notFailed
  deriving DecidableEq

def retryJob (s : Queue) (J : JobId) (timestamp : Int) : Queue × RetryResult :=
  match s.stateOf J with
  | none => (s, .notFound)
  | some .failed => (retryFailedJob (s.zremFailed J) J timestamp, .ok)
  | some _ => (s, .notFailed)

/-! ## Parents and schedulers -/

/-- The late or cross-queue registration of a child. Returns what remains, or the size of the deps
set where the parent is not there. -/
def registerChildDep (s : Queue) (parentId : JobId) (m : DepMember) : Queue × Int :=
  let s := s.saddDeps parentId m
  if s.jobs parentId = none then (s, (s.deps parentId).length)
  else
    let (s, counted) := countEarlyDeps s parentId
    if counted then releaseParentIfReady s parentId else (s, remainingDeps s parentId)

def completeChild (s : Queue) (parentId : JobId) (m : DepMember) : Queue × Int :=
  completeParentDependency s parentId m

inductive RegisterResult where
  | ok
  | alreadyCompleted
  | childNotFound
  deriving DecidableEq

/-- Registers a further parent of an existing child. The two may be in different queues. -/
def registerParent (S : Sys) (child : DepMember) (parent : DepMember) : Sys × RegisterResult :=
  if (S child.queue).jobs child.job = none then (S, .childNotFound)
  else
    let S := onQueue S child.queue (·.saddParents child.job parent)
    let S := onQueue S parent.queue (·.saddDeps parent.job child)
    if (S child.queue).stateOf child.job = some .completed then
      (onQueue S parent.queue fun s => (completeParentDependency s parent.job child).1,
        .alreadyCompleted)
    else (S, .ok)

/-- One parent of the index. -/
def healParent (r : Queue × Nat) (parentId : JobId) : Queue × Nat :=
  let (s, released) := r
  if s.jobs parentId = none then (s.sremDepsEarly parentId, released)
  else
    let before := s.stateOf parentId
    let (s, counted) := countEarlyDeps s parentId
    let s := if counted then (releaseParentIfReady s parentId).1 else s
    let released :=
      if counted ∧ before = some .waitingChildren ∧ s.stateOf parentId = some .waiting then
        released + 1
      else released
    (if (s.job parentId).depsEarly ≤ 0 then s.sremDepsEarly parentId else s, released)

/-- `page` is the server's side of the `SSCAN` call: the members of the index it returned. -/
def healEarlyDeps (s : Queue) (page : List JobId) : Queue × Nat :=
  (page.filter (· ∈ s.depsEarlyIndex)).foldl healParent (s, 0)

/-- `none` stands for an absent entry. -/
def casSchedulerEntry (s : Queue) (name : String) (old : Option SchedulerEntry)
    (new : SchedulerEntry) : Queue × Bool :=
  if s.schedulers name = old then (s.setScheduler name (some new), true) else (s, false)

inductive AwaitResult where
  | parked
  | finished
  | changed
  deriving DecidableEq

def schedulerAwaitInflight (s : Queue) (name : String) (J : JobId) (old : SchedulerEntry) :
    Queue × AwaitResult :=
  if s.schedulers name ≠ some old then (s, .changed)
  else if ended (s.stateOf J) then (s, .finished)
  else (s.setScheduler name (some { old with nextRun := 0 }), .parked)

end GlideMq
