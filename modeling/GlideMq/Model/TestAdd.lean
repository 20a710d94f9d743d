import GlideMq.Model.Add
import GlideMq.Model.TestQueue

/-!
# Adding to the queue without a server

`TestQueue.add` of `testing.ts`. Of the options it keeps those that decide the state of the new
job, its id and its deduplication.
-/

namespace GlideMq

structure Deduplication where
  id : String
  mode : DedupMode := .simple
  ttl : Int := 0

structure TestAddArgs where
  now : Int
  delay : Int := 0
  priority : Nat := 0
  lifo : Bool := false
  jobId : Option JobId := none
  deduplication : Option Deduplication := none

/-- `add` returns `null` for both kinds of job that it does not add, and throws for an error. -/
inductive TestAddResult where
  | added (id : JobId)
  | duplicate
  | skipped
  | error
  deriving DecidableEq

namespace TestQueue

variable (q : TestQueue)

def dequeueRecord (ref : Ref) : TestQueue :=
  { q with waitingQueue := q.waitingQueue.filter fun r => (q.record r).id ≠ (q.record ref).id }

def removeJob (id : JobId) : TestQueue :=
  match q.get id with
  | none => q
  | some ref => (q.dequeueRecord ref).deleteJob id

/-! ## Deduplication -/

def isDeduplicated (dedup : Deduplication) (now : Int) : TestQueue × Bool :=
  match q.dedupEntries dedup.id with
  | none => (q, false)
  | some (jobId, timestamp) =>
    if dedup.mode = .throttle then (q, 0 < dedup.ttl ∧ now - timestamp < dedup.ttl)
    else
      match q.get jobId with
      | none => (q, false)
      | some ref =>
        let record := q.record ref
        if record.state = .completed ∨ record.state = .failed then (q, false)
        else if dedup.mode = .debounce ∧ (record.state = .delayed ∨ record.state = .prioritized) then
          (q.removeJob record.id, false)
        else (q, dedup.mode = .simple ∨ dedup.mode = .debounce)

/-! ## Ids -/

/-- The loop of `generateJobId`, with the tries it has left. -/
def nextFreeId : Nat → TestQueue → TestQueue × Option JobId
  | 0, q => (q, none)
  | tries + 1, q =>
    let q := { q with idCounter := q.idCounter + 1 }
    let id := q.idCounter.repr
    if (q.get id).isSome then nextFreeId tries q else (q, some id)

def generateJobId : TestQueue × Option JobId := nextFreeId 1000 q

/-! ## Records -/

def enqueueWaiting (ref : Ref) : TestQueue :=
  let q := (q.dequeueRecord ref).setState ref .waiting
  { q with waitingQueue := q.waitingQueue ++ [ref] }

def enqueuePrioritized (ref : Ref) : TestQueue :=
  let q := (q.dequeueRecord ref).setState ref .prioritized
  { q with waitingQueue := q.waitingQueue ++ [ref] }

def parkDelayed (ref : Ref) : TestQueue := (q.dequeueRecord ref).setState ref .delayed

def insertRecord (id : JobId) (a : TestAddArgs) : TestQueue :=
  let ref := q.nextRef
  let record : TestJobRecord :=
    { id, state := .waiting, priority := a.priority, lifo := a.lifo, timestamp := a.now }
  let q := { q with record := Function.update q.record ref record, nextRef := ref + 1 }
  let q := q.setJob id ref
  if 0 < a.delay then q.parkDelayed ref
  else if 0 < a.priority then q.enqueuePrioritized ref
  else q.enqueueWaiting ref

def setDedupEntry (d : String) (id : JobId) (timestamp : Int) : TestQueue :=
  { q with dedupEntries := Function.update q.dedupEntries d (some (id, timestamp)) }

/-- The end of `add`, after every check. -/
def accept (dedup : Option Deduplication) (id : JobId) (a : TestAddArgs) : TestQueue × TestAddResult :=
  let q :=
    match dedup with
    | none => q
    | some dedup => q.setDedupEntry dedup.id id a.now
  (q.insertRecord id a, .added id)

/-- The part of `add` after the test of the mode. -/
def addRecord (dedup : Option Deduplication) (a : TestAddArgs) : TestQueue × TestAddResult :=
  match a.jobId with
  | some id => if (q.get id).isSome then (q, .duplicate) else q.accept dedup id a
  | none =>
    match q.generateJobId with
    | (q, some id) => q.accept dedup id a
    | (q, none) => (q, .error)

def add (a : TestAddArgs) : TestQueue × TestAddResult :=
  if maxPriority < a.priority then (q, .error)
  else
    let dedup := if q.dedup then a.deduplication else none
    let (q, skips) :=
      match dedup with
      | none => (q, false)
      | some dedup => q.isDeduplicated dedup a.now
    if skips then (q, .skipped) else q.addRecord dedup a

end TestQueue

def DedupArgs.deduplication (a : DedupArgs) : Deduplication where
  id := a.dedupId
  mode := a.mode
  ttl := a.ttlMs

/-- The options of the call, as `TestQueue.add` gets them. -/
def DedupArgs.testArgs (a : DedupArgs) : TestAddArgs where
  now := a.timestamp
  delay := a.delay
  priority := a.priority
  lifo := a.lifo
  jobId := a.customJobId
  deduplication := some a.deduplication

end GlideMq
