import GlideMq.Model.Claim

/-!
# Stalled jobs

A job whose worker has gone quiet goes back to where it came from, or fails once it has stalled
too often. Stream claims are found with `XAUTOCLAIM`, list claims in `list-active-ids`.
-/

namespace GlideMq

open Queue

def stalledReason : String := "job stalled more than maxStalledCount"

/-- Returns whether the job failed. -/
def applyStalledLogic (s : Queue) (J : JobId) (maxStalledCount : Nat) (timestamp serverNow : Int) :
    Queue × Bool :=
  let s := s.hset J fun j => { j with stalledCount := j.stalledCount + 1 }
  if maxStalledCount < (s.job J).stalledCount then
    let processedOn := (s.job J).processedOn.getD timestamp
    let s := (s.zaddFailed J timestamp).setFailed J stalledReason timestamp
    let s := advanceRepeatAfterComplete s J timestamp
    let s := markOrderingDone s J none none
    let s := releaseGroupSlotAndPromote s J timestamp serverNow none false
    (recordFailed s timestamp (timestamp - processedOn), true)
  else (s, false)

/-- `extractLockDurationFromOpts`: out of range counts as unset. -/
def jobLockDuration (o : JobOpts) : Int :=
  if o.lockDuration < 1000 ∨ 86400000 < o.lockDuration then 0 else o.lockDuration

/-- How long the job may be quiet. -/
def effectiveIdle (o : JobOpts) (workerLockDuration minIdleMs : Int) : Int :=
  if 0 < jobLockDuration o then jobLockDuration o
  else if 0 < workerLockDuration then workerLockDuration
  else minIdleMs

/-- A job that goes back to be claimed again. -/
def setRedispatched (s : Queue) (J : JobId) : Queue :=
  s.hset J fun j => { j with state := some .waiting, processedOn := none, lastActive := none }

structure ReclaimArgs where
  group : Group
  consumer : String
  minIdleMs : Int
  maxStalledCount : Nat := 1
  timestamp : Int
  serverNow : Int
  workerLockDuration : Int := 0
  deriving DecidableEq

/-- One entry of the `XAUTOCLAIM` reply. -/
def reclaimEntry (a : ReclaimArgs) (s : Queue) (e : Redis.Entry JobEntry) : Queue :=
  let J := e.val.jobId
  let drop (s : Queue) : Queue := ackDel s a.group (some e.id)
  if s.jobs J = none then drop s
  else
    match checkExpired s J a.timestamp a.serverNow with
    | (s, true) => drop s
    | (s, false) =>
      let job := s.job J
      let idle := effectiveIdle job.opts a.workerLockDuration a.minIdleMs
      if ∃ t ∈ job.lastActive, a.timestamp - t < idle then s
      else
        match applyStalledLogic s J a.maxStalledCount a.timestamp a.serverNow with
        | (s, true) => drop s
        | (s, false) => (setRedispatched (drop s) J).xaddJob J

/-- `visited` is the server's side of the `XAUTOCLAIM` call: the pending entries that its bounded
scan looks at and finds idle for `minIdleMs`. -/
def reclaimStalled (s : Queue) (a : ReclaimArgs) (visited : Nat → Bool) : Queue :=
  if s.paused then s
  else
    let entries := s.stream.claimable a.group visited
    entries.foldl (reclaimEntry a) (s.autoclaim a.group a.consumer visited)

/-! ## List claims -/

/-- `isListSourced`: an old hash has no mark and is judged by its list. -/
def isListSourced (j : Job) : Bool :=
  match j.listSourced with
  | some b => b
  | none => j.lifo || decide (0 < j.priority)

def isActiveListClaim (s : Queue) (J : JobId) : Bool :=
  s.stateOf J = some .active && isListSourced (s.job J)

/-- The server's side of a bounded `SCAN` for active list claims: the job ids it returned, and
whether it went through the whole keyspace. -/
structure Scan where
  ids : List JobId
  complete : Bool
  deriving DecidableEq

def Scan.found (s : Queue) (scan : Scan) : List JobId := scan.ids.filter (isActiveListClaim s)

/-- The set of list claims is trusted once a complete scan has seeded it and it is at least as
large as the counter. -/
def trustsListActiveIds (s : Queue) : Bool :=
  s.listActiveSeeded && decide (s.listActive ≤ s.listActiveIds.length)

/-- The active list claims, and whether they are complete. -/
def activeListIds (s : Queue) (scan : Scan) : Queue × List JobId × Bool :=
  if trustsListActiveIds s then (s, s.listActiveIds.filter (isActiveListClaim s), true)
  else
    let ids := scan.found s
    if scan.complete then ((s.saddListActiveIds ids).setListActiveSeeded true, ids, true)
    else (s, ids, false)

/-- The reply is the slice of the ids from `start` to `stop`, inclusive, or to the end. -/
def getActiveListJobIds (s : Queue) (scan : Scan) (start : Nat) (stop : Option Nat) :
    Queue × List JobId :=
  let (s, ids, _) := activeListIds s scan
  match stop with
  | some stop => (s, (ids.take (stop + 1)).drop start)
  | none => (s, ids.drop start)

structure ReclaimListArgs where
  minIdleMs : Int
  maxStalledCount : Nat := 1
  timestamp : Int
  serverNow : Int
  workerLockDuration : Int := 0
  deriving DecidableEq

/-- The source list of a job, as it was before the stall logic. -/
def requeueStalled (s : Queue) (J : JobId) (lifo : Bool) (priority : Nat) : Queue :=
  let s := setRedispatched s J
  if lifo then s.rpushLifo J else if 0 < priority then s.lpushPriority J else s.xaddJob J

/-- One active list claim. -/
def reclaimListJob (a : ReclaimListArgs) (s : Queue) (J : JobId) : Queue :=
  let job := s.job J
  let idle := effectiveIdle job.opts a.workerLockDuration a.minIdleMs
  if ∃ t ∈ job.lastActive, idle ≤ a.timestamp - t then
    let s := s.hset J ({ · with lastActive := some a.timestamp })
    match checkExpired s J a.timestamp a.serverNow with
    | (s, true) => decrListActive s J
    | (s, false) =>
      match applyStalledLogic s J a.maxStalledCount a.timestamp a.serverNow with
      | (s, true) => decrListActive s J
      | (s, false) => decrListActive (requeueStalled s J job.lifo job.priority) J
  else s

def reclaimStalledListJobs (s : Queue) (a : ReclaimListArgs) (scan : Scan) : Queue :=
  if s.paused ∨ s.listActive ≤ 0 then s
  else
    let (s, ids, _) := activeListIds s scan
    ids.foldl (reclaimListJob a) s

/-! ## Healing the counter -/

/-- Drops the ids that are no list claims any more. Returns how many are left. -/
def pruneListActiveIds (s : Queue) : Queue × Nat :=
  let live := s.listActiveIds.filter (isActiveListClaim s)
  let dead := s.listActiveIds.filter (fun J => ¬ isActiveListClaim s J)
  (dead.foldl sremListActiveIds s, live.length)

def correctListActive (s : Queue) (counter : Int) (live : Nat) : Queue × Int :=
  let drift := counter - live
  (if 0 < drift then s.setListActive (s.listActive - drift) else s, drift)

/-- Returns the drift. -/
def healListActive (s : Queue) (scan : Scan) : Queue × Int :=
  let counter := s.listActive
  if counter ≤ 0 then (s, 0)
  else if trustsListActiveIds s then
    let (s, live) := pruneListActiveIds s
    correctListActive s counter live
  else
    let seed := (scan.found s).foldl (fun l J => l.insert J) s.listActiveSeed
    if ¬ scan.complete then (s.setListActiveSeed seed, 0)
    else
      let s := (s.saddListActiveIds seed).setListActiveSeed []
      let (s, live) := pruneListActiveIds s
      correctListActive (s.setListActiveSeeded true) counter live

end GlideMq
