import GlideMq.Model.State

/-!
# Commands

Each write command of the library on one key. `simps` gives the frame lemmas: what a command
does to every other key.
-/

open Redis

namespace GlideMq.Queue

/-! ## Job hashes -/

/-- `HSET job:J`, which creates a missing hash. -/
@[simps -fullyApplied]
def hset (s : Queue) (J : JobId) (f : Job → Job) : Queue :=
  { s with jobs := Function.update s.jobs J (some (f ((s.jobs J).getD {}))) }

/-- A write that only touches a hash that exists, such as `HDEL job:J`. -/
@[simps -fullyApplied]
def hmod (s : Queue) (J : JobId) (f : Job → Job) : Queue :=
  { s with jobs := Function.update s.jobs J ((s.jobs J).map f) }

@[simps -fullyApplied]
def unlinkJob (s : Queue) (J : JobId) : Queue :=
  { s with jobs := Function.update s.jobs J none }

/-! ## The stream -/

/-- `xaddJob`. -/
@[simps -fullyApplied]
def xaddJob (s : Queue) (J : JobId) : Queue := { s with stream := s.stream.xadd ⟨J, none⟩ }

@[simps -fullyApplied]
def xaddRetry (s : Queue) (J : JobId) (group : Group) : Queue :=
  { s with stream := s.stream.xadd ⟨J, some group⟩ }

@[simps -fullyApplied]
def xack (s : Queue) (group : Group) (e : Nat) : Queue := { s with stream := s.stream.xack group e }

@[simps -fullyApplied]
def xackAll (s : Queue) (e : Nat) : Queue := { s with stream := s.stream.xackAll e }

@[simps -fullyApplied]
def xdel (s : Queue) (e : Nat) : Queue := { s with stream := s.stream.xdel e }

@[simps -fullyApplied]
def deliver (s : Queue) (group : Group) (consumer : String) (e : Entry JobEntry) : Queue :=
  { s with stream := s.stream.deliver group consumer e }

@[simps -fullyApplied]
def autoclaim (s : Queue) (group : Group) (consumer : String) (visited : Nat → Bool) : Queue :=
  { s with stream := s.stream.autoclaim group consumer visited }

/-! ## The lists -/

@[simps -fullyApplied]
def lpushPriority (s : Queue) (J : JobId) : Queue := { s with priorityList := J :: s.priorityList }

@[simps -fullyApplied]
def rpushPriority (s : Queue) (J : JobId) : Queue :=
  { s with priorityList := s.priorityList ++ [J] }

@[simps -fullyApplied]
def rpushLifo (s : Queue) (J : JobId) : Queue := { s with lifoList := s.lifoList ++ [J] }

/-- `LREM priority 0 J`. -/
@[simps -fullyApplied]
def lremPriority (s : Queue) (J : JobId) : Queue :=
  { s with priorityList := s.priorityList.filter (· ≠ J) }

/-- `LREM lifo 0 J`. -/
@[simps -fullyApplied]
def lremLifo (s : Queue) (J : JobId) : Queue := { s with lifoList := s.lifoList.filter (· ≠ J) }

/-- The list that is left after `RPOP priority`. -/
@[simps -fullyApplied]
def dropPriority (s : Queue) : Queue := { s with priorityList := s.priorityList.dropLast }

/-- The list that is left after `RPOP lifo`. -/
@[simps -fullyApplied]
def dropLifo (s : Queue) : Queue := { s with lifoList := s.lifoList.dropLast }

@[simps -fullyApplied]
def unlinkPriority (s : Queue) : Queue := { s with priorityList := [] }

@[simps -fullyApplied]
def unlinkLifo (s : Queue) : Queue := { s with lifoList := [] }

/-! ## Sorted sets -/

@[simps -fullyApplied]
def zaddScheduled (s : Queue) (member : String) (x : Int) : Queue :=
  { s with scheduled := s.scheduled.add member x }

@[simps -fullyApplied]
def zremScheduled (s : Queue) (member : String) : Queue :=
  { s with scheduled := s.scheduled.rem member }

@[simps -fullyApplied]
def unlinkScheduled (s : Queue) : Queue := { s with scheduled := ∅ }

@[simps -fullyApplied]
def zaddCompleted (s : Queue) (J : JobId) (x : Int) : Queue :=
  { s with completed := s.completed.add J x }

@[simps -fullyApplied]
def zremCompleted (s : Queue) (J : JobId) : Queue := { s with completed := s.completed.rem J }

@[simps -fullyApplied]
def zaddFailed (s : Queue) (J : JobId) (x : Int) : Queue := { s with failed := s.failed.add J x }

@[simps -fullyApplied]
def zremFailed (s : Queue) (J : JobId) : Queue := { s with failed := s.failed.rem J }

@[simps -fullyApplied]
def zaddSuspended (s : Queue) (J : JobId) (x : Int) : Queue :=
  { s with suspended := s.suspended.add J x }

@[simps -fullyApplied]
def zremSuspended (s : Queue) (J : JobId) : Queue := { s with suspended := s.suspended.rem J }

@[simps -fullyApplied]
def zaddRatelimited (s : Queue) (gk : GroupKey) (x : Int) : Queue :=
  { s with ratelimited := s.ratelimited.add gk x }

@[simps -fullyApplied]
def zremRatelimited (s : Queue) (gk : GroupKey) : Queue :=
  { s with ratelimited := s.ratelimited.rem gk }

@[simps -fullyApplied]
def zaddGroupq (s : Queue) (gk : GroupKey) (J : JobId) (x : Int) : Queue :=
  { s with groupq := Function.update s.groupq gk ((s.groupq gk).add J x) }

@[simps -fullyApplied]
def zremGroupq (s : Queue) (gk : GroupKey) (J : JobId) : Queue :=
  { s with groupq := Function.update s.groupq gk ((s.groupq gk).rem J) }

@[simps -fullyApplied]
def zaddReturning (s : Queue) (gk : GroupKey) (J : JobId) (x : Int) : Queue :=
  { s with returning := Function.update s.returning gk ((s.returning gk).add J x) }

@[simps -fullyApplied]
def zremReturning (s : Queue) (gk : GroupKey) (J : JobId) : Queue :=
  { s with returning := Function.update s.returning gk ((s.returning gk).rem J) }

/-! ## Groups and ordering -/

/-- `HSET` and `HDEL` on `group:<key>`. -/
@[simps -fullyApplied]
def hgroup (s : Queue) (gk : GroupKey) (f : GroupHash → GroupHash) : Queue :=
  { s with groups := Function.update s.groups gk (f (s.groups gk)) }

/-- `HINCRBY ordering <key> 1`. -/
@[simps -fullyApplied]
def incrOrdering (s : Queue) (gk : GroupKey) : Queue :=
  { s with ordering := Function.update s.ordering gk (s.ordering gk + 1) }

@[simps -fullyApplied]
def setOrderdone (s : Queue) (gk : GroupKey) (n : Nat) : Queue :=
  { s with orderdone := Function.update s.orderdone gk n }

@[simps -fullyApplied]
def setOrderdonePending (s : Queue) (gk : GroupKey) (l : List Nat) : Queue :=
  { s with orderdonePending := Function.update s.orderdonePending gk l }

/-! ## List claims -/

@[simps -fullyApplied]
def setListActive (s : Queue) (n : Int) : Queue := { s with listActive := n }

@[simps -fullyApplied]
def saddListActiveIds (s : Queue) (ids : List JobId) : Queue :=
  { s with listActiveIds := ids.foldl (fun l J => l.insert J) s.listActiveIds }

@[simps -fullyApplied]
def sremListActiveIds (s : Queue) (J : JobId) : Queue :=
  { s with listActiveIds := s.listActiveIds.filter (· ≠ J) }

@[simps -fullyApplied]
def setListActiveSeed (s : Queue) (l : List JobId) : Queue := { s with listActiveSeed := l }

@[simps -fullyApplied]
def setListActiveSeeded (s : Queue) (b : Bool) : Queue := { s with listActiveSeeded := b }

/-- History: a worker holds these list claims from now on. -/
@[simps -fullyApplied]
def takeClaims (s : Queue) (ids : List JobId) : Queue := { s with listClaims := s.listClaims ++ ids }

/-- History: the list claim on `J` is used up. -/
@[simps -fullyApplied]
def dropClaim (s : Queue) (J : JobId) : Queue := { s with listClaims := s.listClaims.filter (· ≠ J) }

/-! ## Parents -/

/-- `SADD deps:<parent>`. -/
@[simps -fullyApplied]
def saddDeps (s : Queue) (parentId : JobId) (m : DepMember) : Queue :=
  { s with deps := Function.update s.deps parentId ((s.deps parentId).insert m) }

@[simps -fullyApplied]
def unlinkDeps (s : Queue) (parentId : JobId) : Queue :=
  { s with deps := Function.update s.deps parentId [] }

/-- `SADD parents:<job>`. -/
@[simps -fullyApplied]
def saddParents (s : Queue) (J : JobId) (m : DepMember) : Queue :=
  { s with parents := Function.update s.parents J ((s.parents J).insert m) }

@[simps -fullyApplied]
def unlinkParents (s : Queue) (J : JobId) : Queue :=
  { s with parents := Function.update s.parents J [] }

@[simps -fullyApplied]
def saddDepsEarly (s : Queue) (parentId : JobId) : Queue :=
  { s with depsEarlyIndex := s.depsEarlyIndex.insert parentId }

@[simps -fullyApplied]
def sremDepsEarly (s : Queue) (parentId : JobId) : Queue :=
  { s with depsEarlyIndex := s.depsEarlyIndex.filter (· ≠ parentId) }

/-- `SADD xq-pending`. -/
@[simps -fullyApplied]
def saddXqPending (s : Queue) (n : ParentNotify) : Queue :=
  { s with xqPending := s.xqPending.insert n }

@[simps -fullyApplied]
def sremXqPending (s : Queue) (n : ParentNotify) : Queue :=
  { s with xqPending := s.xqPending.filter (· ≠ n) }

/-! ## The rest -/

@[simps -fullyApplied]
def setPaused (s : Queue) (b : Bool) : Queue := { s with paused := b }

@[simps -fullyApplied]
def setIdKey (s : Queue) (v : String) : Queue := { s with idKey := some v }

@[simps -fullyApplied]
def setDedup (s : Queue) (dedupId : String) (J : JobId) (timestamp : Int) : Queue :=
  { s with dedup := Function.update s.dedup dedupId (some (J, timestamp)) }

@[simps -fullyApplied]
def setScheduler (s : Queue) (name : String) (e : Option SchedulerEntry) : Queue :=
  { s with schedulers := Function.update s.schedulers name e }

@[simps -fullyApplied]
def setMetricsCompleted (s : Queue) (m : Int → Option Minute) : Queue :=
  { s with metricsCompleted := m }

@[simps -fullyApplied]
def setMetricsFailed (s : Queue) (m : Int → Option Minute) : Queue := { s with metricsFailed := m }

@[simps -fullyApplied]
def setActivationFailures (s : Queue) (l : Option (List (JobId × String))) : Queue :=
  { s with activationFailures := l }

@[simps -fullyApplied]
def setChainListsEmpty (s : Queue) (b : Bool) : Queue := { s with chainListsEmpty := b }

end GlideMq.Queue
