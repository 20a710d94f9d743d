import GlideMq.Model.Parents

/-!
# Settling a job

A worker completes or fails the job it ran. The stream entry of the claim goes, the group's slot
is released, the parents are told, and the retention rule sweeps the terminal set.
-/

namespace GlideMq

open Queue Redis

/-- 2 ^ 42, the weight of a priority in a scheduled score. -/
def priorityShift : Int := 4398046511104

/-! ## Retention -/

/-- The sorted set of the jobs that ended one way. -/
inductive TerminalSet where
  | completed
  | failed
  deriving DecidableEq

def TerminalSet.state : TerminalSet → JobState
  | .completed => .completed
  | .failed => .failed

def Queue.terminalSet (s : Queue) : TerminalSet → SortedSet JobId
  | .completed => s.completed
  | .failed => s.failed

def Queue.zremTerminal (s : Queue) (t : TerminalSet) (J : JobId) : Queue :=
  match t with
  | .completed => s.zremCompleted J
  | .failed => s.zremFailed J

/-- `UNLINK`s the job hashes, then removes the ids from the set. -/
def removeExcessJobs (s : Queue) (t : TerminalSet) (ids : List JobId) : Queue :=
  ids.foldl (fun s J => s.zremTerminal t J) (ids.foldl unlinkJob s)

/-- The arguments `removeMode`, `removeCount` and `removeAge`. -/
inductive Retention where
  | keep
  | remove
  | count (n : Nat)
  | ageCount (age n : Nat)
  deriving DecidableEq

def retainCount (s : Queue) (t : TerminalSet) (n : Nat) : Queue :=
  let total := (s.terminalSet t).card
  if 0 < n ∧ n < total then
    removeExcessJobs s t ((s.terminalSet t).take (min (total - n) 1000))
  else s

def retainAge (s : Queue) (t : TerminalSet) (age : Nat) (timestamp : Int) : Queue :=
  if 0 < age then
    removeExcessJobs s t ((s.terminalSet t).rangeByScore 0 (timestamp - age * 1000) 1000)
  else s

/-- What a settled job's retention mode deletes. -/
def retain (s : Queue) (t : TerminalSet) (J : JobId) (r : Retention) (timestamp : Int) : Queue :=
  match r with
  | .keep => s
  | .remove => s.unlinkJob J
  | .count n => retainCount s t n
  | .ageCount age n => retainCount (retainAge s t age timestamp) t n

/-! ## Claims -/

/-- The guarded decrement of the list-active counter. -/
def decrListActive (s : Queue) (J : JobId) : Queue :=
  let s := s.sremListActiveIds J
  if 0 < s.listActive then s.setListActive (s.listActive - 1) else s

def incrListActive (s : Queue) (ids : List JobId) : Queue :=
  (s.setListActive (s.listActive + ids.length)).saddListActiveIds ids

/-- The stream entry of a claim, acknowledged and deleted. A list claim has none. -/
def ackDel (s : Queue) (group : Group) (entryId : Option Nat) : Queue :=
  match entryId with
  | none => s
  | some e => (s.xack group e).xdel e

/-- A list claim on a job that is gone. -/
def forgetListClaim (s : Queue) (J : JobId) (entryId : Option Nat) : Queue :=
  if entryId = none then (s.sremListActiveIds J).dropClaim J else s

/-- A settled list claim. -/
def settleListClaim (s : Queue) (J : JobId) (entryId : Option Nat) : Queue :=
  if entryId = none then (decrListActive s J).dropClaim J else s

/-! ## Completion -/

structure CompleteArgs where
  jobId : JobId
  entryId : Option Nat
  timestamp : Int
  serverNow : Int
  group : Group
  retention : Retention := .keep
  skipMetrics : Bool := false
  deriving DecidableEq

def Queue.setCompleted (s : Queue) (J : JobId) (timestamp : Int) : Queue :=
  s.hset J fun j => { j with state := some .completed, finishedOn := some timestamp }

/-- The terminal writes, left out where the hash is deleted right after. -/
def markCompleted (s : Queue) (J : JobId) (r : Retention) (timestamp : Int) : Queue :=
  if r = .remove then s else (s.zaddCompleted J timestamp).setCompleted J timestamp

/-- Replies with the parent notifications, or with `none` for `REVOKED`. -/
def complete (s : Queue) (a : CompleteArgs) : Queue × Option (List ParentNotify) :=
  let J := a.jobId
  let cur := s.job J
  if cur.revoked then (s, none)
  else
    let processedOn := cur.processedOn.getD a.timestamp
    let s := ackDel s a.group a.entryId
    if cur.state = none then (forgetListClaim s J a.entryId, some [])
    else
      let s := markCompleted s J a.retention a.timestamp
      let s := markOrderingDone s J none none
      let s := releaseGroupSlotAndPromote s J a.timestamp a.serverNow none false
      let s :=
        if a.skipMetrics then s else recordCompleted s a.timestamp (a.timestamp - processedOn)
      let (s, ns) := enqueueTreeParentNotifies s J cur.parentQueue cur.parentId cur.replacedIds
      let s := retain s .completed J a.retention a.timestamp
      let (s, ns) := completeParents s J cur.parentQueue cur.parentId ns
      (settleListClaim s J a.entryId, some ns)

/-! ## Failure -/

structure FailArgs where
  jobId : JobId
  entryId : Option Nat
  failedReason : String := ""
  timestamp : Int
  serverNow : Int
  maxAttempts : Nat := 0
  backoffDelay : Int := 0
  group : Group
  retention : Retention := .keep
  skipMetrics : Bool := false
  deriving DecidableEq

inductive FailResult where
  | removed
  | retrying
  | failed
  deriving DecidableEq

/-- The retry branch: back to the scheduled set. An ordered job keeps its slot. -/
def failRetry (s : Queue) (a : FailArgs) (requeueOnly : Bool) : Queue :=
  let J := a.jobId
  let s :=
    if ¬ requeueOnly ∧ (s.job J).opts.fallbacks then
      s.hset J fun j => { j with fallbackIndex := j.fallbackIndex + 1 }
    else s
  let retryAt := a.timestamp + a.backoffDelay
  let s := s.zaddScheduled J ((s.job J).priority * priorityShift + retryAt)
  let s := s.hset J fun j =>
    { j with
      state := some .delayed
      failedReason := if requeueOnly then j.failedReason else some a.failedReason
      processedOn := some a.timestamp }
  let s :=
    if 0 < (s.job J).orderingSeq then s.hset J ({ · with retainedSlot := true })
    else releaseGroupSlotAndPromote s J a.timestamp a.serverNow none false
  settleListClaim s J a.entryId

/-- The terminal writes, left out where the hash is deleted right after. -/
def markFailed (s : Queue) (a : FailArgs) : Queue :=
  if a.retention = .remove then s
  else
    (s.zaddFailed a.jobId a.timestamp).hset a.jobId fun j =>
      { j with
        state := some .failed
        failedReason := some a.failedReason
        finishedOn := some a.timestamp
        processedOn := some a.timestamp }

/-- The final branch. -/
def failFinal (s : Queue) (a : FailArgs) (processedOn : Int) : Queue :=
  let J := a.jobId
  let s := markFailed s a
  let s := markOrderingDone s J none none
  let s := releaseGroupSlotAndPromote s J a.timestamp a.serverNow none false
  let s := if a.skipMetrics then s else recordFailed s a.timestamp (a.timestamp - processedOn)
  let s := retain s .failed J a.retention a.timestamp
  settleListClaim s J a.entryId

def failJobCore (s : Queue) (a : FailArgs) (requeueOnly : Bool) : Queue × FailResult :=
  let J := a.jobId
  let processedOn := (s.job J).processedOn.getD a.timestamp
  let s := ackDel s a.group a.entryId
  if s.jobs J = none then (forgetListClaim s J a.entryId, .removed)
  else
    let s := if requeueOnly then s else s.hset J fun j => { j with attemptsMade := j.attemptsMade + 1 }
    if requeueOnly ∨ (0 < a.maxAttempts ∧ (s.job J).attemptsMade < a.maxAttempts) then
      (failRetry s a requeueOnly, .retrying)
    else (failFinal s a processedOn, .failed)

/-- `requeueOnly` is the argument that a `RateLimitError` sets. -/
def fail (s : Queue) (a : FailArgs) (requeueOnly : Bool) : Queue × FailResult :=
  failJobCore s a requeueOnly

end GlideMq
