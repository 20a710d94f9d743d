import GlideMq.Model.Add

/-!
# `Queue.add`

The client's side of adding one job: it checks the options, rounds the amounts to thousandths and
calls `addJob`. Checks on the spelling of names are left out.
-/

namespace GlideMq

/-- `Math.round`. -/
def jsRound (x : ℚ) : Int := ⌊x + 1 / 2⌋

def minJobLockDurationMs : Int := 1000

def maxJobLockDurationMs : Int := 86400000

structure AddOptions where
  opts : JobOpts := {}
  delay : Int := 0
  priority : Nat := 0
  jobId : Option JobId := none
  parent : Option (QueueName × JobId) := none
  deriving DecidableEq

def validateJobScheduleOptions (o : AddOptions) : Bool := o.priority ≤ maxPriority ∧ 0 ≤ o.delay

/-- Whether the options pass. -/
def validateJobOptions (o : AddOptions) : Bool :=
  validateJobScheduleOptions o &&
    (match o.opts.ordering.bind OrderingOpts.tokenBucket with
    | none => true
    | some (capacity, refillRate) => decide (0 < Lua.nearest capacity) && decide (0 < Lua.nearest refillRate)) &&
    decide (0 ≤ Lua.nearest o.opts.cost) &&
    !(o.opts.lifo && o.opts.orderingKey.isSome) &&
    decide (0 ≤ o.opts.ttl) &&
    (o.opts.lockDuration = 0 ||
      decide (minJobLockDurationMs ≤ o.opts.lockDuration ∧ o.opts.lockDuration ≤ maxJobLockDurationMs))

def JobOpts.roundedBucket (o : JobOpts) : Int × Int :=
  match o.ordering.bind OrderingOpts.tokenBucket with
  | none => (0, 0)
  | some (capacity, refillRate) => (jsRound (scaled capacity), jsRound (scaled refillRate))

def JobOpts.roundedCost (o : JobOpts) : Int := jsRound (scaled o.cost)

/-- The arguments of the call. -/
def AddOptions.toArgs (o : AddOptions) (queue : QueueName) (timestamp serverNow : Int) : AddArgs :=
  let r := o.opts.ordering.getD {}
  { opts := o.opts
    timestamp
    serverNow
    delay := o.delay
    priority := o.priority
    parentId := o.parent.map Prod.snd
    parentQueue := o.parent.map Prod.fst
    registerDep := o.parent.map Prod.fst = some queue
    orderingKey := o.opts.orderingKey
    group :=
      { concurrency :=
          if o.opts.orderingKey.isSome ∧ r.concurrency < 1 then 1 else r.concurrency
        rateMax := r.rateMax
        rateDuration := r.rateDuration
        tbCapacity := o.opts.roundedBucket.1
        tbRefillRate := o.opts.roundedBucket.2 }
    jobCost := o.opts.roundedCost
    ttl := o.opts.ttl
    customJobId := o.jobId
    lifo := o.opts.lifo }

/-- `Queue.add` without deduplication, up to the reply of the server function. -/
def queueAdd (s : Queue) (o : AddOptions) (timestamp serverNow : Int) : Queue × AddResult :=
  if validateJobOptions o then addJob s (o.toArgs s.name timestamp serverNow) else (s, .error)

end GlideMq
