import GlideMq.Model.State
import Mathlib.Data.List.Sort

/-!
# The queue without a server

`TestQueue` of `testing.ts` keeps the jobs of a queue in memory. Records are objects: the map of
jobs and the waiting queue hold references to them. Events and timers are left out.
-/

namespace GlideMq

inductive TestState where
  | waiting
  | prioritized
  | active
  | completed
  | failed
  | delayed
  | suspended
  | waitingChildren
  deriving DecidableEq

/-- `TestJobRecord`. A job without a priority has priority 0. -/
structure TestJobRecord where
  id : JobId
  state : TestState
  priority : Nat := 0
  lifo : Bool := false
  timestamp : Int := 0

/-- A reference to a record. -/
abbrev Ref := Nat

structure TestQueue where
  record : Ref → TestJobRecord
  /-- The next object to be made. -/
  nextRef : Ref := 0
  /-- A map, in the order in which its keys were added. -/
  jobs : List (JobId × Ref) := []
  /-- The job and the time of the add. -/
  dedupEntries : String → Option (JobId × Int) := fun _ => none
  waitingQueue : List Ref := []
  idCounter : Nat := 0
  /-- The option that turns deduplication off. -/
  dedup : Bool := true

namespace TestQueue

variable (q : TestQueue)

/-! ## Maps and records -/

/-- `jobs.get(id)`. -/
def get (id : JobId) : Option Ref := q.jobs.lookup id

/-- `jobs.set(id, record)`: a key that is there keeps its place. -/
def setJob (id : JobId) (ref : Ref) : TestQueue :=
  { q with
      jobs := if (q.get id).isSome then
          q.jobs.map fun p => if p.1 = id then (id, ref) else p
        else q.jobs ++ [(id, ref)] }

/-- `jobs.delete(id)`. -/
def deleteJob (id : JobId) : TestQueue := { q with jobs := q.jobs.filter (·.1 ≠ id) }

def setState (ref : Ref) (state : TestState) : TestQueue :=
  { q with record := Function.update q.record ref { q.record ref with state } }

/-- The record is the job under its id, and not an object that was replaced. -/
def isCurrent (ref : Ref) : Bool := q.get (q.record ref).id = some ref

/-! ## Dispatch -/

/-- `promotePrioritized`. -/
def promotePrioritized : TestQueue :=
  q.waitingQueue.foldl
    (fun q ref =>
      if (q.record ref).state ≠ .prioritized ∨ !q.isCurrent ref then q else q.setState ref .waiting)
    q

/-- The entries that are waiting jobs, each once. -/
def compact : List JobId → List Ref → List Ref
  | _, [] => []
  | seen, ref :: rest =>
    if (q.record ref).state = .waiting ∧ q.isCurrent ref ∧ (q.record ref).id ∉ seen then
      ref :: compact ((q.record ref).id :: seen) rest
    else compact seen rest

/-- The variables of the search in `nextWaitingIndex`. `bestPriority` is infinite at first. -/
structure Best where
  best : Option Nat := none
  bestPriority : Option Nat := none
  lifo : Option Nat := none

def Best.look (record : Ref → TestJobRecord) (b : Best) (entry : Ref × Nat) : Best :=
  let opts := record entry.1
  if opts.lifo then { b with lifo := some entry.2 }
  else if 0 < opts.priority ∧ ∀ p ∈ b.bestPriority, opts.priority < p then
    { b with best := some entry.2, bestPriority := some opts.priority }
  else b

/-- `nextWaitingIndex`, which also compacts the queue. -/
def nextWaitingIndex : TestQueue × Option Nat :=
  let q := q.promotePrioritized
  let q := { q with waitingQueue := q.compact [] q.waitingQueue }
  let b := q.waitingQueue.zipIdx.foldl (Best.look q.record) {}
  (q, (b.best <|> b.lifo) <|> if 0 < q.waitingQueue.length then some 0 else none)

def takeNextWaiting : TestQueue × Option Ref :=
  match q.nextWaitingIndex with
  | (q, none) => (q, none)
  | (q, some best) => ({ q with waitingQueue := q.waitingQueue.eraseIdx best }, q.waitingQueue[best]?)

/-- `waitingInDispatchOrder`. -/
def waitingInDispatchOrder : List Ref :=
  let listed := q.compact [] q.waitingQueue
  let rest := (q.jobs.map (·.2)).filter fun ref =>
    (q.record ref).state = .waiting ∧ (q.record ref).id ∉ listed.map fun r => (q.record r).id
  let live := listed ++ rest
  let priority := (live.filter fun r => !(q.record r).lifo && 0 < (q.record r).priority).insertionSort
    fun a b => (q.record a).priority ≤ (q.record b).priority
  let lifo := (live.filter fun r => (q.record r).lifo).reverse
  let fifo := live.filter fun r => !(q.record r).lifo && (q.record r).priority = 0
  priority ++ lifo ++ fifo

end TestQueue

end GlideMq
