import GlideMq.Model.Claim

/-!
# Chain calls

`completeAndFetchNext` and `failAndFetchNext` settle a job and claim and activate the next one in
the same call: from the priority list, the LIFO list or the stream.
-/

namespace GlideMq

open Queue

inductive ChainNext where
  | none
  /-- A claimed entry of a revoked job, left to the worker. -/
  | revoked (J : JobId) (entryId : Nat)
  /-- An activated job. A job from a list has no entry. -/
  | hash (J : JobId) (entryId : Option Nat) (fields : Job)
  deriving DecidableEq

/-- The arguments of `fetchNextForChain`. -/
structure FetchArgs where
  group : Group
  consumer : String
  timestamp : Int
  serverNow : Int
  skipMetrics : Bool := false
  deriving DecidableEq

def recordFailedUnless (skip : Bool) (s : Queue) (timestamp duration : Int) : Queue :=
  if skip then s else recordFailed s timestamp duration

/-! ## Lists -/

/-- What a phase does with a popped job: go on with the next one, or reply. -/
abbrev Fetched := Queue × Option ChainNext

def activateFromList (s : Queue) (J : JobId) (now : Int) : Fetched :=
  let s := activate s J now true
  (incrListActive s [J], some (.hash J none (s.job J)))

/-- A job of the priority list that is over the capacity of its bucket. -/
def failOversizePriority (s : Queue) (a : FetchArgs) (J : JobId) (gk : GroupKey) : Queue :=
  let now := a.timestamp
  let seq := (s.job J).orderingSeq
  let processedOn := (s.job J).processedOn.getD now
  let s := (s.zaddFailed J now).setFailed J costReason now
  let s := advanceRepeatAfterComplete s J now
  let s := noteActivationFailure s J costReason
  let s := recordFailedUnless a.skipMetrics s now (now - processedOn)
  if 0 < seq then
    let s := markOrderingDone s J (some gk) (some seq)
    closeOrderingHoleAndPromote s J now a.serverNow
  else s

/-- The group gates of a job of the priority list. -/
def fetchPriorityInGroup (s : Queue) (a : FetchArgs) (J : JobId) (gk : GroupKey) : Fetched :=
  let now := a.timestamp
  let job := s.job J
  let seq := job.orderingSeq
  let (s, nextSeq) := skipToNext s gk (s.groups gk).nextSeq
  let g := s.groups gk
  let returning : Bool := 0 < seq ∧ 0 < nextSeq ∧ seq < nextSeq
  if (0 < seq ∧ 0 < nextSeq ∧ nextSeq < seq) ∨
      (0 < g.maxConcurrency ∧ g.maxConcurrency ≤ g.active ∧ ¬ returning) then
    (park s gk J (if 0 < seq then seq else (numericId J).getD 0), none)
  else
    let (s, tokens) := refill s gk a.serverNow
    let cost := job.cost.getD 1000
    if 0 < g.tbCapacity ∧ g.tbCapacity < cost then (failOversizePriority s a J gk, none)
    else
      let tb := tokenDelay g tokens cost
      let rl := if tb.isSome then none else windowDelay g now
      if tb.isSome ∨ rl.isSome then
        let s := park s gk J (groupqScore s J)
        (s.zaddRatelimited gk (now + max (tb.getD 0) (rl.getD 0)), some .none)
      else
        let s := chargeGroup s gk cost now
        let s := activate s J now true
        let s := if returning then s else takeSlot s gk seq
        let s := if 0 < seq ∧ ¬ returning then s.zremGroupq gk J else s
        (incrListActive s [J], some (.hash J none (s.job J)))

/-- A popped job of the priority list. One that is deleted, revoked or no longer waiting is
dropped. -/
def fetchPriority (s : Queue) (a : FetchArgs) (J : JobId) : Fetched :=
  let job := s.job J
  if job.state = none ∨ ¬ isActivatable job.state ∨ job.revoked then (s, none)
  else if isExpired job a.timestamp then
    (expireJob s J a.timestamp a.serverNow job.state none none none, none)
  else
    match job.groupKey with
    | some gk => fetchPriorityInGroup s a J gk
    | none => activateFromList s J a.timestamp

/-- A popped job of the LIFO list, which has no group gates. -/
def fetchLifo (s : Queue) (a : FetchArgs) (J : JobId) : Fetched :=
  let job := s.job J
  if job.state = none ∨ ¬ isActivatable job.state ∨ job.revoked then (s, none)
  else if isExpired job a.timestamp then
    (expireJob s J a.timestamp a.serverNow job.state none none none, none)
  else activateFromList s J a.timestamp

/-- The attempts at one list. The flag says that the list was found empty. -/
def listPhase (k : ListKey) (fetch : Queue → JobId → Fetched) :
    Nat → Queue → Queue × Option ChainNext × Bool
  | 0, s => (s, none, false)
  | attempts + 1, s =>
    match (s.list k).getLast? with
    | none => (s, none, true)
    | some J =>
      match fetch (s.drop k) J with
      | (s, some next) => (s, some next, false)
      | (s, none) => listPhase k fetch attempts s

/-! ## Stream -/

/-- What the stream phase ends with. -/
inductive StreamPick where
  | reply (next : ChainNext)
  | picked (J : JobId) (entryId : Nat)

/-- The attempts at the stream: a stale or expired job's entry goes, the next one is read. -/
def streamPhase (a : FetchArgs) (listsEmpty : Bool) : Nat → Queue → Queue × StreamPick
  | 0, s => (s, .reply .none)
  | attempts + 1, s =>
    match s.stream.next? a.group with
    | none => (s.setChainListsEmpty listsEmpty, .reply .none)
    | some e =>
      let s := s.deliver a.group a.consumer e
      let J := e.val.jobId
      let job := s.job J
      if job.state = none then (s, .reply .none)
      else if job.revoked then (s, .reply (.revoked J e.id))
      else if ¬ isActivatable job.state then
        streamPhase a listsEmpty attempts (ackDel s a.group (some e.id))
      else if isExpired job a.timestamp then
        let s := expireJob s J a.timestamp a.serverNow job.state none none none
        streamPhase a listsEmpty attempts (ackDel s a.group (some e.id))
      else (s, .picked J e.id)

def activateFromStream (s : Queue) (J : JobId) (e : Nat) (now : Int) : Queue × ChainNext :=
  let s := activate s J now false
  (s, .hash J (some e) (s.job J))

/-- The group gates of a job of the stream. -/
def fetchStreamInGroup (s : Queue) (a : FetchArgs) (J : JobId) (e : Nat) (gk : GroupKey) :
    Queue × ChainNext :=
  let now := a.timestamp
  let job := s.job J
  let seq := job.orderingSeq
  let (s, nextSeq) := if 0 < seq then skipToNext s gk (s.groups gk).nextSeq else (s, 0)
  if 0 < nextSeq ∧ nextSeq < seq then (park (ackDel s a.group (some e)) gk J seq, .none)
  else
    let returning : Bool := 0 < nextSeq ∧ seq < nextSeq
    let g := s.groups gk
    if 0 < g.maxConcurrency ∧ g.maxConcurrency ≤ g.active ∧ ¬ returning then
      let s := ackDel s a.group (some e)
      (park s gk J (groupqScore s J), .none)
    else
      let (s, tokens) := refill s gk a.serverNow
      let cost := job.cost.getD 1000
      if 0 < g.tbCapacity ∧ g.tbCapacity < cost then
        let processedOn := job.processedOn.getD now
        let s := failOversize (ackDel s a.group (some e)) J gk now
        let s := noteActivationFailure s J costReason
        let s := recordFailedUnless a.skipMetrics s now (now - processedOn)
        (closeOrderingHoleAndPromote s J now a.serverNow, .none)
      else
        let tb := tokenDelay g tokens cost
        let rl := windowDelay g now
        if tb.isSome ∨ rl.isSome then
          let s := ackDel s a.group (some e)
          let s := park s gk J (groupqScore s J)
          (s.zaddRatelimited gk (now + max (tb.getD 0) (rl.getD 0)), .none)
        else
          let s := chargeGroup s gk cost now
          let s := if returning then s else takeSlot s gk seq
          let s := if 0 < seq ∧ ¬ returning then s.zremGroupq gk J else s
          activateFromStream s J e now

def fetchStream (s : Queue) (a : FetchArgs) (listsEmpty : Bool) : Queue × ChainNext :=
  match streamPhase a listsEmpty 3 s with
  | (s, .reply next) => (s, next)
  | (s, .picked J e) =>
    match (s.job J).groupKey with
    | some gk => fetchStreamInGroup s a J e gk
    | none => activateFromStream s J e a.timestamp

def fetchNextForChain (s : Queue) (a : FetchArgs) : Queue × ChainNext :=
  if 0 < s.globalConcurrency ∧ s.globalConcurrency ≤ claimedCount s a.group then (s, .none)
  else
    match listPhase .priority (fetchPriority · a) 3 s with
    | (s, some next, _) => (s, next)
    | (s, none, priorityEmpty) =>
      match listPhase .lifo (fetchLifo · a) 3 s with
      | (s, some next, _) => (s, next)
      | (s, none, lifoEmpty) => fetchStream s a (priorityEmpty && lifoEmpty)

/-! ## Replies -/

structure ChainReply where
  next : ChainNext
  notifications : List ParentNotify
  failedActivations : List (JobId × String)
  listsEmpty : Bool

def beginChain (s : Queue) : Queue := (s.setActivationFailures (some [])).setChainListsEmpty false

def finishChainReply (s : Queue) (next : ChainNext) (notifications : List ParentNotify) :
    Queue × ChainReply :=
  ((s.setActivationFailures none).setChainListsEmpty false,
    ⟨next, notifications, s.activationFailures.getD [], s.chainListsEmpty⟩)

/-! ## `completeAndFetchNext` -/

/-- A field of the job hash that the worker may know already. -/
inductive Hint (α : Type) where
  /-- The empty string: the call reads the hash. -/
  | read
  /-- The marker `__` of an absent field. -/
  | absent
  | is (v : α)
  deriving DecidableEq

def Hint.value {α : Type} : Hint α → Option α
  | .is v => some v
  | _ => none

structure CompleteNextArgs extends CompleteArgs where
  consumer : String
  orderingKey : Hint GroupKey := .read
  orderingSeq : Option Nat := none
  groupKey : Hint GroupKey := .read
  processedOn : Option Int := none
  deriving DecidableEq

def CompleteNextArgs.fetch (a : CompleteNextArgs) : FetchArgs :=
  { group := a.group, consumer := a.consumer, timestamp := a.timestamp, serverNow := a.serverNow,
    skipMetrics := a.skipMetrics }

def markDoneByHints (s : Queue) (a : CompleteNextArgs) : Queue :=
  if a.orderingKey ≠ .absent then markOrderingDone s a.jobId a.orderingKey.value a.orderingSeq
  else if a.groupKey ≠ .absent then markOrderingDone s a.jobId a.groupKey.value a.orderingSeq
  else s

/-- The completion of a chain call, of a job that has a state. -/
def completeInChain (s : Queue) (a : CompleteNextArgs) (cur : Job) : Queue × List ParentNotify :=
  let J := a.jobId
  let processedOn := a.processedOn.getD (cur.processedOn.getD a.timestamp)
  let s := markCompleted s J a.retention a.timestamp
  let s := markDoneByHints s a
  let s :=
    if a.groupKey ≠ .absent then
      releaseGroupSlotAndPromote s J a.timestamp a.serverNow a.groupKey.value false
    else s
  let s := if a.skipMetrics then s else recordCompleted s a.timestamp (a.timestamp - processedOn)
  let (s, ns) := enqueueTreeParentNotifies s J cur.parentQueue cur.parentId cur.replacedIds
  let s := settleListClaim s J a.entryId
  let s := retain s .completed J a.retention a.timestamp
  completeParents s J cur.parentQueue cur.parentId ns

/-- Replies with `none` for `CURRENT_REVOKED`. -/
def completeAndFetchNext (s : Queue) (a : CompleteNextArgs) : Queue × Option ChainReply :=
  let J := a.jobId
  let cur := s.job J
  if cur.revoked then (s, none)
  else
    let s := ackDel (beginChain s) a.group a.entryId
    let (s, ns) :=
      if cur.state = none then (forgetListClaim s J a.entryId, [])
      else completeInChain s a cur
    let (s, next) := if s.paused then (s, .none) else fetchNextForChain s a.fetch
    let (s, reply) := finishChainReply s next ns
    (s, some reply)

/-! ## `failAndFetchNext` -/

def FailArgs.fetch (a : FailArgs) (consumer : String) : FetchArgs :=
  { group := a.group, consumer, timestamp := a.timestamp, serverNow := a.serverNow,
    skipMetrics := a.skipMetrics }

def failAndFetchNext (s : Queue) (a : FailArgs) (consumer : String) :
    Queue × FailResult × ChainReply :=
  let (s, result) := failJobCore (beginChain s) a false
  let (s, next) :=
    if consumer = "" ∨ s.paused then (s, .none) else fetchNextForChain s (a.fetch consumer)
  let (s, reply) := finishChainReply s next []
  (s, result, reply)

end GlideMq
