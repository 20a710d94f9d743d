import GlideMq.Redis.SortedSet
import GlideMq.Redis.Stream
import Mathlib.Data.Rat.Floor
import Mathlib.Logic.Function.Basic
import Mathlib.Order.Basic
import Mathlib.Data.String.Basic
import Mathlib.Tactic.Simps.Basic

/-!
# The keys of a queue

The model is of a standard queue: each function is as a call with `broadcastMode = '0'` runs
it. One field per key (or per family of keys) that `glidemq.lua` reads or writes, without the
events stream, which it only writes. A number the library reads with `tonumber(x) or 0` is a
number with default 0, a flag it compares with `'1'` is a `Bool`, and a string that counts as
absent when it is empty is an `Option`.
-/

open Redis

namespace GlideMq

abbrev JobId := String
abbrev QueueName := String
/-- An ordering key. -/
abbrev GroupKey := String
/-- A consumer group of the stream. -/
abbrev Group := String

inductive JobState where
  | waiting
  | active
  | delayed
  | prioritized
  | groupWaiting
  | waitingChildren
  | suspended
  | completed
  | failed
  deriving DecidableEq

def JobState.terminal : JobState → Bool
  | .completed | .failed => true
  | _ => false

/-- `queuePrefix:jobId`, a member of a deps set or an entry of a parents set. -/
structure DepMember where
  queue : QueueName
  job : JobId
  deriving DecidableEq

/-- A member of `xq-pending`: `[parentQueue, parentId, depsMember]`. -/
structure ParentNotify where
  parentQueue : QueueName
  parentId : JobId
  child : DepMember
  deriving DecidableEq

/-- The `ordering` part of a job's options. -/
structure OrderingOpts where
  key : GroupKey := ""
  concurrency : Int := 0
  rateMax : Int := 0
  rateDuration : Int := 0
  /-- Capacity and refill rate in tokens. -/
  tokenBucket : Option (ℚ × ℚ) := none
  deriving DecidableEq

/-- The options of a job that the library decodes from the `opts` JSON. -/
structure JobOpts where
  ordering : Option OrderingOpts := none
  cost : ℚ := 0
  ttl : Int := 0
  lockDuration : Int := 0
  lifo : Bool := false
  fallbacks : Bool := false
  deriving DecidableEq

/-- The hash `job:<id>`. -/
structure Job where
  state : Option JobState := none
  opts : JobOpts := {}
  timestamp : Option Int := none
  attemptsMade : Nat := 0
  delay : Int := 0
  priority : Nat := 0
  lifo : Bool := false
  listSourced : Option Bool := none
  groupKey : Option GroupKey := none
  orderingKey : Option GroupKey := none
  orderingSeq : Nat := 0
  cost : Option Int := none
  expireAt : Option Int := none
  revoked : Bool := false
  retainedSlot : Bool := false
  stalledCount : Nat := 0
  processedOn : Option Int := none
  lastActive : Option Int := none
  finishedOn : Option Int := none
  failedReason : Option String := none
  fallbackIndex : Nat := 0
  schedulerName : Option String := none
  parentQueue : Option QueueName := none
  parentId : Option JobId := none
  replacedIds : List JobId := []
  depsCompleted : Nat := 0
  depsEarly : Int := 0
  /-- The `depdone:` fields. -/
  depdone : List DepMember := []
  /-- The `depearly:` fields. -/
  depearly : List DepMember := []
  deriving DecidableEq

/-- The hash `group:<key>`. `nextSeq` is 0 when the field is absent. -/
structure GroupHash where
  maxConcurrency : Int := 0
  active : Int := 0
  nextSeq : Nat := 0
  /-- The `skip:` fields. -/
  skip : List Nat := []
  rateMax : Int := 0
  rateDuration : Int := 0
  rateWindowStart : Int := 0
  rateCount : Int := 0
  tbCapacity : Int := 0
  tbRefillRate : Int := 0
  tbTokens : Option Int := none
  tbLastRefill : Option Int := none
  tbRefillRemainder : Int := 0
  deriving DecidableEq

/-- The fields of a stream entry: `jobId` and the optional `retryGroup`. -/
structure JobEntry where
  jobId : JobId
  retryGroup : Option Group := none
  deriving DecidableEq

/-- The options of a job scheduler. An interval of 0 is one that is not given. -/
structure Schedule where
  pattern : Option String := none
  every : Int := 0
  repeatAfterComplete : Int := 0
  tz : Option String := none
  startDate : Option Int := none
  endDate : Option Int := none
  limit : Option Int := none
  deriving DecidableEq

/-- A JSON value of the `schedulers` hash. -/
structure SchedulerEntry extends Schedule where
  iterationCount : Int := 0
  template : Option String := none
  lastRun : Option Int := none
  nextRun : Int := 0
  /-- The job that was fired last. -/
  inflightJobId : Option JobId := none
  deriving DecidableEq

/-- One minute of a metrics hash: the count and the summed duration. -/
structure Minute where
  count : Nat := 0
  duration : Int := 0
  deriving DecidableEq

/-- The keys of one queue, and the two module variables of the library that a chain call uses. -/
structure Queue where
  name : QueueName
  paused : Bool := false
  globalConcurrency : Int := 0
  /-- The value of the `id` key. -/
  idKey : Option String := none
  /-- The hash `ordering`: the last sequence issued for a key. -/
  ordering : GroupKey → Nat := fun _ => 0
  jobs : JobId → Option Job := fun _ => none
  stream : Stream JobEntry := ∅
  scheduled : SortedSet String := ∅
  completed : SortedSet JobId := ∅
  failed : SortedSet JobId := ∅
  suspended : SortedSet JobId := ∅
  ratelimited : SortedSet GroupKey := ∅
  groupq : GroupKey → SortedSet JobId := fun _ => ∅
  returning : GroupKey → SortedSet JobId := fun _ => ∅
  /-- The list `priority`, left end first. -/
  priorityList : List JobId := []
  /-- The list `lifo`, left end first. -/
  lifoList : List JobId := []
  listActive : Int := 0
  listActiveIds : List JobId := []
  /-- `list-active-ids:seed`. -/
  listActiveSeed : List JobId := []
  /-- The `listActiveIds` field of `meta`. -/
  listActiveSeeded : Bool := false
  groups : GroupKey → GroupHash := fun _ => {}
  /-- The `orderdone:` fields of `meta`. -/
  orderdone : GroupKey → Nat := fun _ => 0
  orderdonePending : GroupKey → List Nat := fun _ => []
  deps : JobId → List DepMember := fun _ => []
  parents : JobId → List DepMember := fun _ => []
  depsEarlyIndex : List JobId := []
  xqPending : List ParentNotify := []
  dedup : String → Option (JobId × Int) := fun _ => none
  schedulers : String → Option SchedulerEntry := fun _ => none
  metricsCompleted : Int → Option Minute := fun _ => none
  metricsFailed : Int → Option Minute := fun _ => none
  /-- Jobs failed at activation by the current chain call, `none` outside one. -/
  activationFailures : Option (List (JobId × String)) := none
  /-- Set when a chain call found both lists and the stream empty. -/
  chainListsEmpty : Bool := false
  /-- History, read by no function: the list claims that workers hold, popped and not yet
  activated, parked, settled or handed back. -/
  listClaims : List JobId := []

end GlideMq
