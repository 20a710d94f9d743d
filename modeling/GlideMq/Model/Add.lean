import GlideMq.Lua.Double
import GlideMq.Model.Claim

/-!
# Adding jobs

`addJob` and `dedup` add one job, `addFlow` adds a parent and its children in one call. An id is
the caller's own or the next value of the queue's counter.
-/

namespace GlideMq

open Queue

/-! ## Ids -/

/-- `tonumber(id) or 0`, of the value of the `id` key, or 0 for a negative one: it is compared with
positive numbers only. -/
def counterOf (id : Option String) : Nat := ((id.filter Lua.isDigits).map Lua.toNumber).getD 0

/-- Moves the counter up to a numeric custom id. -/
def advanceIdCounter (s : Queue) (customId : JobId) : Queue :=
  if Lua.isDigits customId ∧ 0 < Lua.toNumber customId ∧
      counterOf s.idKey < Lua.toNumber customId then
    s.setIdKey customId
  else s

/-- `INCR id` and the id that is printed from it, or `none` where `INCR` fails. -/
def incrId (s : Queue) : Option (Queue × JobId) :=
  (Lua.incr s.idKey).map fun n => (s.setIdKey n.repr, Lua.printInt n)

inductive AddResult where
  | added (J : JobId)
  | duplicate
  | costExceedsCapacity
  | idExhausted
  | skipped
  /-- The script stops with an error. -/
  | error
  deriving DecidableEq

/-- The id of a new job: a custom one has to be free, an automatic one is taken as it comes. -/
def allocateId (s : Queue) (customId : Option JobId) : Queue × AddResult :=
  match customId with
  | some J => if s.jobs J = none then (advanceIdCounter s J, .added J) else (s, .duplicate)
  | none =>
    match incrId s with
    | some (s, J) => (s, .added J)
    | none => (s, .error)

/-- The loop of `addFlow` that passes over ids in use. -/
def skipUsedIds : Nat → Queue → JobId → Queue × AddResult
  | 0, s, J => if s.jobs J = none then (s, .added J) else (s, .idExhausted)
  | retries + 1, s, J =>
    if s.jobs J = none then (s, .added J)
    else
      match incrId s with
      | some (s, J) => skipUsedIds retries s J
      | none => (s, .error)

/-- The id of a job of a flow. -/
def allocateFlowId (s : Queue) (customId : Option JobId) : Queue × AddResult :=
  match customId with
  | some J => if s.jobs J = none then (advanceIdCounter s J, .added J) else (s, .duplicate)
  | none =>
    match incrId s with
    | some (s, J) => skipUsedIds 999 s J
    | none => (s, .error)

/-! ## Group configuration -/

structure GroupConfig where
  concurrency : Int := 0
  rateMax : Int := 0
  rateDuration : Int := 0
  tbCapacity : Int := 0
  tbRefillRate : Int := 0
  deriving DecidableEq

def upsertRate (g : GroupHash) (c : GroupConfig) : GroupHash :=
  if 0 < c.rateMax then { g with rateMax := c.rateMax, rateDuration := c.rateDuration }
  else if 0 < g.rateMax then
    { g with rateMax := 0, rateDuration := 0, rateWindowStart := 0, rateCount := 0 }
  else g

def upsertTokenBucket (g : GroupHash) (c : GroupConfig) (serverNow : Int) : GroupHash :=
  if 0 < c.tbCapacity then
    let g' := { g with tbCapacity := c.tbCapacity, tbRefillRate := c.tbRefillRate }
    if g.tbCapacity = 0 then
      { g' with
        tbTokens := some c.tbCapacity
        tbLastRefill := some serverNow
        tbRefillRemainder := 0 }
    else g'
  else if 0 < g.tbCapacity then
    { g with
      tbCapacity := 0
      tbRefillRate := 0
      tbTokens := none
      tbLastRefill := none
      tbRefillRemainder := 0 }
  else g

def upsertGroupConfig (s : Queue) (orderingKey : GroupKey) (orderingSeq : Nat) (c : GroupConfig)
    (serverNow : Int) : Queue :=
  s.hgroup orderingKey fun g =>
    let g := { g with maxConcurrency := max c.concurrency 1 }
    let g := if 0 < orderingSeq ∧ g.nextSeq = 0 then { g with nextSeq := 1 } else g
    upsertTokenBucket (upsertRate g c) c serverNow

/-! ## `addJob` -/

def maxPriority : Nat := 2048

structure AddArgs where
  opts : JobOpts := {}
  timestamp : Int
  serverNow : Int
  delay : Int := 0
  priority : Nat := 0
  parentId : Option JobId := none
  parentQueue : Option QueueName := none
  /-- Whether the call has the key of the parent's deps set. -/
  registerDep : Bool := false
  orderingKey : Option GroupKey := none
  group : GroupConfig := {}
  jobCost : Int := 0
  ttl : Int := 0
  customJobId : Option JobId := none
  lifo : Bool := false
  schedulerName : Option String := none
  deriving DecidableEq

def costExceeds (ordered : Bool) (tbCapacity jobCost : Int) : Bool :=
  ordered && decide (0 < tbCapacity) && decide (tbCapacity < if 0 < jobCost then jobCost else 1000)

/-- The state of a new job. -/
def newState (delay : Int) (priority : Nat) : JobState :=
  if 0 < delay then .delayed else if 0 < priority then .prioritized else .waiting

/-- The next sequence of the ordering key, and the sequence of a job without one. -/
def issueSeq (s : Queue) (orderingKey : Option GroupKey) : Queue × Nat :=
  match orderingKey with
  | none => (s, 0)
  | some k => (s.incrOrdering k, s.ordering k + 1)

/-- The fields of a new hash. A hash that is there already keeps its other fields. -/
def AddArgs.fields (a : AddArgs) (seq : Nat) (replacedIds : List JobId) (old : Job) : Job :=
  { old with
    opts := a.opts
    timestamp := some a.timestamp
    attemptsMade := 0
    delay := a.delay
    priority := a.priority
    groupKey := if a.orderingKey.isSome then a.orderingKey else old.groupKey
    orderingSeq := if a.orderingKey.isSome then seq else old.orderingSeq
    cost := if 0 < a.jobCost then some a.jobCost else old.cost
    expireAt := if 0 < a.ttl then some (a.timestamp + a.ttl) else old.expireAt
    parentId := if a.parentId.isSome then a.parentId else old.parentId
    parentQueue :=
      if a.parentId.isSome ∧ a.parentQueue.isSome then a.parentQueue else old.parentQueue
    schedulerName := if a.schedulerName.isSome then a.schedulerName else old.schedulerName
    replacedIds := if replacedIds = [] then old.replacedIds else replacedIds
    lifo := a.lifo || old.lifo
    state := some (newState a.delay a.priority) }

/-- `SADD` to the deps set of a parent in the same queue. -/
def registerInDeps (s : Queue) (a : AddArgs) (J : JobId) : Queue :=
  match a.parentId, a.parentQueue with
  | some p, some _ => if a.registerDep then s.saddDeps p ⟨s.name, J⟩ else s
  | _, _ => s

/-- Puts a new job into its container. -/
def enqueueNew (s : Queue) (J : JobId) (timestamp delay : Int) (priority : Nat) (lifo : Bool) :
    Queue :=
  if 0 < delay then s.zaddScheduled J (priority * priorityShift + (timestamp + delay))
  else if 0 < priority then s.zaddScheduled J (priority * priorityShift)
  else if lifo then s.rpushLifo J
  else s.xaddJob J

/-- The hash of a new job, with its sequence and its group's configuration. -/
def createJob (s : Queue) (J : JobId) (a : AddArgs) (replacedIds : List JobId) : Queue :=
  let (s, seq) := issueSeq s a.orderingKey
  let s :=
    match a.orderingKey with
    | none => s
    | some k => upsertGroupConfig s k seq a.group a.serverNow
  registerInDeps (s.hset J (a.fields seq replacedIds)) a J

def addJob (s : Queue) (a : AddArgs) : Queue × AddResult :=
  if maxPriority < a.priority then (s, .error)
  else if costExceeds a.orderingKey.isSome a.group.tbCapacity a.jobCost then
    (s, .costExceedsCapacity)
  else
    match allocateId s a.customJobId with
    | (s, .added J) =>
      let s := createJob s J a []
      (enqueueNew s J a.timestamp a.delay a.priority a.lifo, .added J)
    | r => r

/-! ## `dedup` -/

inductive DedupMode where
  | simple
  | throttle
  | debounce
  deriving DecidableEq

structure DedupArgs extends AddArgs where
  dedupId : String
  ttlMs : Int := 0
  mode : DedupMode
  deriving DecidableEq

/-- What the mode decides: skip, or go on after removing a job that waits. -/
inductive DedupDecision where
  | skip
  | add
  | replace (J : JobId)
  deriving DecidableEq

def ended (st : Option JobState) : Bool :=
  st = none || st = some .completed || st = some .failed

def dedupDecision (s : Queue) (a : DedupArgs) : DedupDecision :=
  match s.dedup a.dedupId with
  | none => .add
  | some (J, storedTs) =>
    let st := s.stateOf J
    match a.mode with
    | .simple => if ended st then .add else .skip
    | .throttle => if 0 < a.ttlMs ∧ a.timestamp - storedTs < a.ttlMs then .skip else .add
    | .debounce =>
      if st = some .delayed ∨ st = some .prioritized then .replace J
      else if ended st then .add
      else .skip

/-- Removes the debounced job. -/
def removeReplaced (s : Queue) (J : JobId) (timestamp serverNow : Int) : Queue × ChildParents :=
  let job := s.job J
  let s := s.zremScheduled J
  let s := markOrderingDone s J none none
  let s :=
    if job.groupKey.isSome ∧ 0 < job.orderingSeq then
      closeOrderingHoleAndPromote s J timestamp serverNow
    else s
  ((s.unlinkJob J).unlinkParents J, readChildParents s J)

/-- Whether the replacement inherits the replaced child's dependency on a parent in another
queue. -/
def inheritsEdge (a : AddArgs) (own : QueueName) (edges : ChildParents) : Bool :=
  a.parentId.isSome && a.parentQueue.isSome && a.parentQueue ≠ some own &&
    edges.parentQueue = a.parentQueue && edges.parentId = a.parentId

/-- The children that the replacement of `old` stands for. -/
def inheritedIds (edges : ChildParents) (old J : JobId) : List JobId :=
  edges.replacedIds ++ if old = J then [] else [old]

/-- Adds the replacement of `old`, then resolves the parents of `old` that it does not take
over. -/
def createReplacement (s : Queue) (J old : JobId) (edges : ChildParents) (a : AddArgs) : Queue :=
  let inherits := inheritsEdge a s.name edges
  let s := createJob s J a (if inherits then inheritedIds edges old J else [])
  let edges := if inherits then { edges with parentId := none, replacedIds := [] } else edges
  if J = old then
    let edges :=
      if edges.parentId = a.parentId ∧ edges.parentQueue = a.parentQueue then
        { edges with parentId := none }
      else edges
    let s := edges.dagParents.foldl (fun s p => s.saddParents J p) s
    (resolveRemovedChildParents s old { edges with dagParents := [] }).1
  else (resolveRemovedChildParents s old edges).1

/-- The part of `dedup` after the mode's decision. -/
def dedupAdd (s : Queue) (a : DedupArgs) (replaced : Option (JobId × ChildParents)) :
    Queue × AddResult :=
  match allocateId s a.customJobId with
  | (s, .added J) =>
    let s :=
      match replaced with
      | none => createJob s J a.toAddArgs []
      | some (old, edges) => createReplacement s J old edges a.toAddArgs
    let s := enqueueNew s J a.timestamp a.delay a.priority a.lifo
    (s.setDedup a.dedupId J a.timestamp, .added J)
  | (s, .duplicate) =>
    match replaced with
    | none => (s, .duplicate)
    | some (old, edges) => ((resolveRemovedChildParents s old edges).1, .duplicate)
  | r => r

def dedup (s : Queue) (a : DedupArgs) : Queue × AddResult :=
  if maxPriority < a.priority then (s, .error)
  else if costExceeds a.orderingKey.isSome a.group.tbCapacity a.jobCost then
    (s, .costExceedsCapacity)
  else
    match dedupDecision s a with
    | .skip => (s, .skipped)
    | .add => dedupAdd s a none
    | .replace J =>
      let (s, edges) := removeReplaced s J a.timestamp a.serverNow
      dedupAdd s a (some (J, edges))

/-! ## `addFlow` -/

/-- All queues of a server. -/
abbrev Sys := QueueName → Queue

def onQueue (S : Sys) (q : QueueName) (f : Queue → Queue) : Sys := Function.update S q (f (S q))

structure FlowParent where
  opts : JobOpts := {}
  timestamp : Int
  serverNow : Int
  delay : Int := 0
  priority : Nat := 0
  customId : Option JobId := none
  deriving DecidableEq

structure FlowChild where
  queue : QueueName
  opts : JobOpts := {}
  delay : Int := 0
  priority : Nat := 0
  customId : Option JobId := none
  deriving DecidableEq

structure FlowArgs where
  queue : QueueName
  parent : FlowParent
  children : List FlowChild
  /-- Children that exist already. -/
  extraDeps : List DepMember := []
  deriving DecidableEq

/-! What the library reads from the options of a flow's job: amounts are in thousandths, rounded
down. -/

/-- An amount times 1000, as a double. -/
def scaled (x : ℚ) : ℚ := Lua.nearest (Lua.nearest x * 1000)

def thousandths (x : ℚ) : Int := ⌊scaled x⌋

def JobOpts.orderingKey (o : JobOpts) : Option GroupKey :=
  (o.ordering.map OrderingOpts.key).filter (· ≠ "")

def JobOpts.tokenBucket (o : JobOpts) : Int × Int :=
  match o.ordering.bind OrderingOpts.tokenBucket with
  | none => (0, 0)
  | some (capacity, refillRate) => (thousandths capacity, thousandths refillRate)

def JobOpts.groupConfig (o : JobOpts) : GroupConfig :=
  let r := o.ordering.getD {}
  { concurrency := r.concurrency, rateMax := r.rateMax, rateDuration := r.rateDuration,
    tbCapacity := o.tokenBucket.1, tbRefillRate := o.tokenBucket.2 }

def JobOpts.flowCost (o : JobOpts) : Int := thousandths o.cost

def JobOpts.exceeds (o : JobOpts) : Bool :=
  costExceeds o.orderingKey.isSome o.tokenBucket.1 o.flowCost

/-- The group fields of a flow's job. Only a parent replaces the concurrency. -/
def flowGroup (g : GroupHash) (c : GroupConfig) (parent : Bool) (serverNow : Int) : GroupHash :=
  let conc := max c.concurrency 1
  let g := { g with
    maxConcurrency := if parent ∨ g.maxConcurrency = 0 then conc else g.maxConcurrency
    nextSeq := if g.nextSeq = 0 then 1 else g.nextSeq }
  let g :=
    if 0 < c.rateMax then { g with rateMax := c.rateMax, rateDuration := c.rateDuration } else g
  if 0 < c.tbCapacity then
    { g with
      tbCapacity := c.tbCapacity
      tbRefillRate := c.tbRefillRate
      tbTokens := some (g.tbTokens.getD c.tbCapacity)
      tbLastRefill := some (g.tbLastRefill.getD serverNow) }
  else g

def upsertFlowGroup (s : Queue) (o : JobOpts) (parent : Bool) (serverNow : Int) : Queue :=
  match o.orderingKey with
  | none => s
  | some k => s.hgroup k fun g => flowGroup g o.groupConfig parent serverNow

/-- The hash fields that a parent and a child of a flow share. -/
def flowFields (o : JobOpts) (timestamp delay : Int) (priority seq : Nat) (st : JobState)
    (old : Job) : Job :=
  { old with
    opts := o
    timestamp := some timestamp
    attemptsMade := 0
    delay
    priority
    groupKey := if o.orderingKey.isSome then o.orderingKey else old.groupKey
    orderingSeq := if o.orderingKey.isSome then seq else old.orderingSeq
    cost := if 0 < o.flowCost then some o.flowCost else old.cost
    expireAt := if 0 < o.ttl then some (timestamp + o.ttl) else old.expireAt
    state := some st }

/-- The parent's hash. -/
def createFlowParent (s : Queue) (J : JobId) (p : FlowParent) : Queue :=
  let (s, seq) := issueSeq s p.opts.orderingKey
  let s := upsertFlowGroup s p.opts true p.serverNow
  s.hset J (flowFields p.opts p.timestamp p.delay p.priority seq .waitingChildren)

/-- A child's hash and its place in its container. -/
def createFlowChild (s : Queue) (J : JobId) (c : FlowChild) (parentQueue : QueueName)
    (parentId : JobId) (timestamp serverNow : Int) : Queue :=
  let (s, seq) := issueSeq s c.opts.orderingKey
  let s := upsertFlowGroup s c.opts false serverNow
  let s := s.hset J fun old =>
    { flowFields c.opts timestamp c.delay c.priority seq (newState c.delay c.priority) old with
      parentId := some parentId
      parentQueue := some parentQueue
      lifo := c.opts.lifo || old.lifo }
  enqueueNew s J timestamp c.delay c.priority c.opts.lifo

inductive FlowResult where
  | added (parentId : JobId) (childIds : List JobId)
  | duplicate
  | costExceedsCapacity
  | idExhausted
  | error
  deriving DecidableEq

def AddResult.toFlow : AddResult → FlowResult
  | .duplicate => .duplicate
  | .costExceedsCapacity => .costExceedsCapacity
  | .idExhausted => .idExhausted
  | _ => .error

/-- Whether a custom child id is taken: by the parent, by a sibling or by an existing job. -/
def childIdsTaken (S : Sys) (q : QueueName) (parentId : JobId) :
    List FlowChild → List (QueueName × JobId) → Bool
  | [], _ => false
  | c :: cs, seen =>
    match c.customId with
    | none => childIdsTaken S q parentId cs seen
    | some J =>
      (c.queue, J) = (q, parentId) || (c.queue, J) ∈ seen || ((S c.queue).jobs J).isSome ||
        childIdsTaken S q parentId cs ((c.queue, J) :: seen)

/-- The child loop: each child is created and registered in the parent's deps. -/
def addFlowChildren (a : FlowArgs) (parentId : JobId) :
    List FlowChild → Sys → List JobId → Sys × FlowResult
  | [], S, ids => (S, .added parentId ids)
  | c :: cs, S, ids =>
    match allocateFlowId (S c.queue) c.customId with
    | (s, .added J) =>
      let S := Function.update S c.queue
        (createFlowChild s J c a.queue parentId a.parent.timestamp a.parent.serverNow)
      addFlowChildren a parentId cs
        (onQueue S a.queue fun s => s.saddDeps parentId ⟨c.queue, J⟩) (ids ++ [J])
    | (s, r) => (Function.update S c.queue s, r.toFlow)

def addFlow (S : Sys) (a : FlowArgs) : Sys × FlowResult :=
  if a.parent.opts.exceeds then (S, .costExceedsCapacity)
  else if maxPriority < a.parent.priority then (S, .error)
  else
    -- the first child that fails its check decides the reply
    match a.children.find? (fun c => maxPriority < c.priority ∨ c.opts.exceeds) with
    | some c => (S, if maxPriority < c.priority then .error else .costExceedsCapacity)
    | none =>
      match allocateFlowId (S a.queue) a.parent.customId with
      | (s, .added P) =>
        let S := Function.update S a.queue s
        if childIdsTaken S a.queue P a.children [] then (S, .duplicate)
        else
          match addFlowChildren a P a.children
              (onQueue S a.queue fun s => createFlowParent s P a.parent) [] with
          | (S, .added P ids) =>
            (onQueue S a.queue fun s => a.extraDeps.foldl (fun s m => s.saddDeps P m) s, .added P ids)
          | r => r
      | (s, r) => (Function.update S a.queue s, r.toFlow)

end GlideMq
