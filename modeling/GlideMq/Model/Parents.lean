import GlideMq.Model.Group

/-!
# Parents

A parent in `waiting-children` goes back into the stream once every member of its deps set is
done. The end of a child counts for its tree parent and for each of its DAG parents: at once
in the same queue, through `xq-pending` in another one.
-/

namespace GlideMq

open Queue

/-- `SCARD deps - depsCompleted`. -/
def remainingDeps (s : Queue) (parentId : JobId) : Int :=
  (s.deps parentId).length - (s.job parentId).depsCompleted

def releaseParentIfReady (s : Queue) (parentId : JobId) : Queue × Int :=
  let remaining := remainingDeps s parentId
  if remaining ≤ 0 ∧ s.stateOf parentId = some .waitingChildren then
    ((s.setState parentId .waiting).xaddJob parentId, remaining)
  else (s, remaining)

/-- `HSETNX depdone:<member>`, and the count when the field is new. -/
def Job.markDone (j : Job) (m : DepMember) : Job :=
  if m ∈ j.depdone then j
  else { j with depdone := m :: j.depdone, depsCompleted := j.depsCompleted + 1 }

/-- One round of the loop of `countEarlyDeps`: the member is registered by now. -/
def Job.countEarly (j : Job) (m : DepMember) : Job :=
  { j with depearly := j.depearly.filter (· ≠ m), depsEarly := j.depsEarly - 1 }.markDone m

/-- Returns whether a member was counted. -/
def countEarlyDeps (s : Queue) (parentId : JobId) : Queue × Bool :=
  let job := s.job parentId
  if job.depsEarly ≤ 0 then (s, false)
  else
    let ready := job.depearly.filter (· ∈ s.deps parentId)
    (s.hmod parentId fun j => ready.foldl Job.countEarly j, ready.any (· ∉ job.depdone))

/-- A completion that arrives before its member is registered. -/
def parkEarly (s : Queue) (parentId : JobId) (m : DepMember) : Queue :=
  if m ∈ (s.job parentId).depearly then s
  else
    (s.hmod parentId fun j =>
      { j with depearly := m :: j.depearly, depsEarly := j.depsEarly + 1 }).saddDepsEarly parentId

/-- Returns what remains, or -1 for a parent that is gone. -/
def completeParentDependency (s : Queue) (parentId : JobId) (m : DepMember) : Queue × Int :=
  if s.jobs parentId = none then (s, -1)
  else if m ∉ s.deps parentId then
    let s := parkEarly s parentId m
    (s, remainingDeps s parentId)
  else
    let (s, counted) := countEarlyDeps s parentId
    let counted := counted ∨ m ∉ (s.job parentId).depdone
    let s := s.hmod parentId (·.markDone m)
    if counted then releaseParentIfReady s parentId else (s, remainingDeps s parentId)

/-! ## Notifications to other queues -/

def enqueueCrossQueueParentNotify (s : Queue) (J : JobId) (parentQueue : Option QueueName)
    (parentId : Option JobId) : Queue × Option ParentNotify :=
  match parentQueue, parentId with
  | some q, some p =>
    if q = s.name then (s, none)
    else
      let n := ⟨q, p, ⟨s.name, J⟩⟩
      (s.saddXqPending n, some n)
  | _, _ => (s, none)

def addParentNotification (notifications : List ParentNotify) (n : Option ParentNotify) :
    List ParentNotify :=
  match n with
  | none => notifications
  | some n => if n ∈ notifications then notifications else notifications ++ [n]

/-- One notification, recorded and added to the reply. -/
def notifyParent (parentQueue : Option QueueName) (parentId : Option JobId)
    (r : Queue × List ParentNotify) (J : JobId) : Queue × List ParentNotify :=
  let (s, n) := enqueueCrossQueueParentNotify r.1 J parentQueue parentId
  (s, addParentNotification r.2 n)

/-- The notifications of a finished child and of every child it replaced. -/
def enqueueTreeParentNotifies (s : Queue) (J : JobId) (parentQueue : Option QueueName)
    (parentId : Option JobId) (replacedIds : List JobId) : Queue × List ParentNotify :=
  (J :: replacedIds).foldl (notifyParent parentQueue parentId) (s, [])

/-- One DAG parent: counted here, or notified. -/
def resolveDagParent (J : JobId) (r : Queue × List ParentNotify) (p : DepMember) :
    Queue × List ParentNotify :=
  if p.queue = r.1.name then ((completeParentDependency r.1 p.job ⟨r.1.name, J⟩).1, r.2)
  else notifyParent (some p.queue) (some p.job) r J

/-! ## Removed children -/

structure ChildParents where
  parentQueue : Option QueueName
  parentId : Option JobId
  replacedIds : List JobId
  dagParents : List DepMember

/-- The edges of a child, read before its keys are deleted. -/
def readChildParents (s : Queue) (J : JobId) : ChildParents where
  parentQueue := (s.job J).parentQueue
  parentId := (s.job J).parentId
  replacedIds := (s.job J).replacedIds
  dagParents := s.parents J

/-- Resolves the parents of a child that is deleted before it completes. -/
def resolveRemovedChildParents (s : Queue) (J : JobId) (edges : ChildParents) :
    Queue × List ParentNotify :=
  let r : Queue × List ParentNotify :=
    match edges.parentId with
    | none => (s, [])
    | some p =>
      if edges.parentQueue = some s.name then
        ((completeParentDependency s p ⟨s.name, J⟩).1, [])
      else enqueueTreeParentNotifies s J edges.parentQueue (some p) edges.replacedIds
  edges.dagParents.foldl (resolveDagParent J) r

/-- The parents of a child that completed. -/
def completeParents (s : Queue) (J : JobId) (parentQueue : Option QueueName)
    (parentId : Option JobId) (notifications : List ParentNotify) : Queue × List ParentNotify :=
  let s :=
    match parentId with
    | none => s
    | some p =>
      if parentQueue = some s.name then (completeParentDependency s p ⟨s.name, J⟩).1 else s
  (s.parents J).foldl (resolveDagParent J) (s, notifications)

end GlideMq
