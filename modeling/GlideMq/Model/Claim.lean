import GlideMq.Lua.Number
import GlideMq.Model.Settle

/-!
# Claiming a job

A worker takes jobs from the lists or reads stream entries, then activates each claim with
`moveToActive`. A claim that cannot start is parked in its group's wait queue, ended, or handed
back with `deferActive`.
-/

namespace GlideMq

open Queue

/-! ## List pops -/

inductive ListKey where
  | priority
  | lifo
  deriving DecidableEq

def Queue.list (s : Queue) : ListKey → List JobId
  | .priority => s.priorityList
  | .lifo => s.lifoList

def Queue.drop (s : Queue) : ListKey → Queue
  | .priority => s.dropPriority
  | .lifo => s.dropLifo

/-- Up to `n` times `RPOP`. -/
def rpopMany (k : ListKey) : Nat → Queue → List JobId → Queue × List JobId
  | 0, s, results => (s, results)
  | n + 1, s, results =>
    match (s.list k).getLast? with
    | none => (s, results)
    | some J => rpopMany k n (s.drop k) (results ++ [J])

/-- The claims that count against the global limit. -/
def claimedCount (s : Queue) (group : Group) : Int := s.stream.pendingCount group + s.listActive

/-- What is left of the global limit: `-1` without a limit. -/
def checkConcurrency (s : Queue) (group : Group) : Int :=
  if s.globalConcurrency ≤ 0 then -1
  else max 0 (s.globalConcurrency - claimedCount s group)

/-- The ids are handed to a worker, which holds their claims from now on. -/
def reserve (r : Queue × List JobId) : Queue × List JobId :=
  if r.2 = [] then r else ((incrListActive r.1 r.2).takeClaims r.2, r.2)

def rpopAndReserve (s : Queue) (k : ListKey) (group : Group) (count : Nat) :
    Queue × List JobId :=
  if s.paused then (s, [])
  else if 0 < s.globalConcurrency then
    let available := s.globalConcurrency - claimedCount s group
    if available ≤ 0 then (s, []) else reserve (rpopMany k (min count available.toNat) s [])
  else reserve (rpopMany k count s [])

/-- The priority list, and the LIFO list if that was empty. -/
def popBoth (s : Queue) (count : Nat) : Queue × List JobId :=
  match rpopMany .priority count s [] with
  | (s, []) => rpopMany .lifo count s []
  | r => r

/-- The pop of older workers, which reserves nothing. -/
def popLists (s : Queue) (count : Nat) : Queue × List JobId :=
  if s.paused then (s, [])
  else
    let r := popBoth s count
    (r.1.takeClaims r.2, r.2)

def popListsReserve (s : Queue) (count : Nat) : Queue × List JobId :=
  if s.paused then (s, []) else reserve (popBoth s count)

/-! ## Gates -/

/-- States from which a claimed job may start running. A hash without the field is an old one
and may start. -/
def isActivatable : Option JobState → Bool
  | none | some .waiting | some .prioritized | some .groupWaiting => true
  | _ => false

/-- `tonumber(jobId)`, of a string of digits. -/
def numericId (J : JobId) : Option Int :=
  if Lua.isDigits J then some (Lua.toNumber J) else none

def groupqScore (s : Queue) (J : JobId) : Int :=
  let job := s.job J
  if 0 < job.orderingSeq then job.orderingSeq
  else ((numericId J) <|> job.timestamp).getD 0

def park (s : Queue) (gk : GroupKey) (J : JobId) (score : Int) : Queue :=
  (s.zaddGroupq gk J score).setState J .groupWaiting

/-- The wait for tokens, if there are too few. -/
def tokenDelay (g : GroupHash) (tokens cost : Int) : Option Int :=
  if 0 < g.tbCapacity ∧ tokens < cost then
    some (ceilDiv ((cost - tokens) * 1000) (max g.tbRefillRate 1))
  else none

/-- The wait for the next window, if this one is used up. -/
def windowDelay (g : GroupHash) (now : Int) : Option Int :=
  if 0 < g.rateMax ∧ 0 < g.rateDuration ∧ now - g.rateWindowStart < g.rateDuration ∧
      g.rateMax ≤ g.rateCount then
    some (g.rateWindowStart + g.rateDuration - now)
  else none

/-- An activation's cost and its place in the window. -/
def chargeGroup (s : Queue) (gk : GroupKey) (cost now : Int) : Queue :=
  s.hgroup gk fun g =>
    let g :=
      if 0 < g.tbCapacity then { g with tbTokens := some (g.tbTokens.getD 0 - cost) } else g
    if 0 < g.rateMax ∧ 0 < g.rateDuration then
      if g.rateDuration ≤ now - g.rateWindowStart then
        { g with rateWindowStart := now, rateCount := 1 }
      else { g with rateCount := g.rateCount + 1 }
    else g

/-- A first activation takes a slot, and moves the frontier past an ordered job. -/
def takeSlot (s : Queue) (gk : GroupKey) (seq : Nat) : Queue :=
  s.hgroup gk fun g =>
    { g with active := g.active + 1, nextSeq := if 0 < seq then seq + 1 else g.nextSeq }

def activate (s : Queue) (J : JobId) (now : Int) (listSourced : Bool) : Queue :=
  s.hset J fun j =>
    { j with
      state := some .active
      processedOn := some now
      lastActive := some now
      listSourced := some listSourced }

/-! ## `moveToActive` -/

/-- The fields of the reply: the hash as it was read before the write, with three fields patched. Its
`listSourced` is the one from before. -/
def claimedFields (job : Job) (now : Int) : Job :=
  { job with state := some .active, processedOn := some now, lastActive := some now }

structure MoveArgs where
  jobId : JobId
  entryId : Option Nat
  group : Group
  timestamp : Int
  serverNow : Int
  /-- Whether the call checks the global limit. -/
  globalGate : Bool := false
  deriving DecidableEq

inductive ActivationResult where
  | missing
  | stale
  | revoked
  | paused
  | expired
  | globalFull
  | groupOrdered
  | groupFull
  | costExceedsCapacity
  | tokenLimited
  | rateLimited
  | active (fields : Job)
  deriving DecidableEq

/-- A newer stream claim than the limit has room for. -/
def globalFull (s : Queue) (group : Group) (entryId : Nat) : Bool :=
  let allowed := s.globalConcurrency - s.listActive
  let pel := (s.stream.groups group).pel
  decide (0 < s.globalConcurrency) &&
    (decide (allowed ≤ 0) ||
      (decide (allowed < pel.length) && !(pel.take allowed.toNat).any (·.id = entryId)))

/-- The group gates and the activation behind them. -/
def claimInGroup (s : Queue) (a : MoveArgs) (gk : GroupKey) : Queue × ActivationResult :=
  let J := a.jobId
  let job := s.job J
  let seq := job.orderingSeq
  let (s, nextSeq) := if 0 < seq then skipToNext s gk (s.groups gk).nextSeq else (s, 0)
  if 0 < nextSeq ∧ nextSeq < seq then (park (ackDel s a.group a.entryId) gk J seq, .groupOrdered)
  else
    let returning : Bool := 0 < nextSeq ∧ seq < nextSeq
    let g := s.groups gk
    if 0 < g.maxConcurrency ∧ g.maxConcurrency ≤ g.active ∧ ¬ returning then
      let s := ackDel s a.group a.entryId
      (park s gk J (groupqScore s J), .groupFull)
    else
      let (s, tokens) := refill s gk a.serverNow
      let cost := job.cost.getD 1000
      if 0 < g.tbCapacity ∧ g.tbCapacity < cost then
        let s := failOversize (ackDel s a.group a.entryId) J gk a.timestamp
        (closeOrderingHoleAndPromote s J a.timestamp a.serverNow, .costExceedsCapacity)
      else
        let tb := tokenDelay g tokens cost
        let rl := windowDelay g a.timestamp
        if (tb.isSome ∨ rl.isSome) ∧ ¬ returning then
          let s := ackDel s a.group a.entryId
          let s := park s gk J (groupqScore s J)
          (s.zaddRatelimited gk (a.timestamp + max (tb.getD 0) (rl.getD 0)),
            if tb.isSome then .tokenLimited else .rateLimited)
        else
          let s := chargeGroup s gk cost a.timestamp
          let s := if returning then s else takeSlot s gk seq
          let s := if 0 < seq then s.zremGroupq gk J else s
          let s := activate s J a.timestamp a.entryId.isNone
          (s, .active (claimedFields job a.timestamp))

def moveToActiveClaim (s : Queue) (a : MoveArgs) : Queue × ActivationResult :=
  let J := a.jobId
  match s.jobs J with
  | none => (s, .missing)
  | some job =>
    if ¬ isActivatable job.state then (ackDel s a.group a.entryId, .stale)
    else if job.revoked then (s, .revoked)
    else if s.paused then (s, .paused)
    else if isExpired job a.timestamp then
      let s := expireJob s J a.timestamp a.serverNow job.state job.orderingKey
        (some job.orderingSeq) job.groupKey
      (ackDel s a.group a.entryId, .expired)
    else if a.globalGate ∧ ∃ e ∈ a.entryId, globalFull s a.group e then (s, .globalFull)
    else
      match job.groupKey with
      | some gk => claimInGroup s a gk
      | none =>
        let s := activate s J a.timestamp a.entryId.isNone
        (s, .active (claimedFields job a.timestamp))

/-- Results after which a list claim is over. -/
def ActivationResult.releasesListClaim : ActivationResult → Bool
  | .revoked | .paused | .globalFull | .active _ => false
  | _ => true

def moveToActive (s : Queue) (a : MoveArgs) : Queue × ActivationResult :=
  let (s, result) := moveToActiveClaim s a
  if a.entryId = none then
    match result with
    | .active _ => ((s.saddListActiveIds [a.jobId]).dropClaim a.jobId, result)
    | _ =>
      if result.releasesListClaim then
        ((s.sremListActiveIds a.jobId).dropClaim a.jobId, result)
      else (s, result)
  else (s, result)

/-! ## `deferActive` -/

structure DeferArgs where
  jobId : JobId
  entryId : Option Nat
  group : Group
  /-- The claim goes back to the end of its list that is popped next. -/
  pausedRestore : Bool := false
  /-- The claim was activated by a chain call and never ran. -/
  undoGroupClaim : Bool := false
  deriving DecidableEq

/-- Gives back the slot and the frontier, unless the job had them before this claim. -/
def GroupHash.undoSlot (g : GroupHash) (job : Job) : GroupHash :=
  let seq := job.orderingSeq
  let returning : Bool := 0 < seq ∧ 0 < g.nextSeq ∧ seq < g.nextSeq ∧ g.nextSeq ≠ seq + 1
  if ¬ returning ∧ ¬ job.retainedSlot then
    { g with
      active := if 0 < g.active then g.active - 1 else g.active
      nextSeq := if 0 < seq ∧ g.nextSeq = seq + 1 then seq else g.nextSeq }
  else g

/-- Gives back the tokens and the place in the window. -/
def GroupHash.undoCharge (g : GroupHash) (job : Job) : GroupHash :=
  let g :=
    if 0 < g.tbCapacity then
      { g with
        tbTokens := some (min g.tbCapacity (g.tbTokens.getD 0 + job.cost.getD 1000)) }
    else g
  if 0 < g.rateCount then { g with rateCount := g.rateCount - 1 } else g

def undoClaim (s : Queue) (J : JobId) : Queue :=
  let job := s.job J
  match job.groupKey with
  | none => s
  | some gk => s.hgroup gk fun g => (g.undoSlot job).undoCharge job

/-- Where a handed back claim goes. -/
def requeue (s : Queue) (a : DeferArgs) : Queue :=
  let J := a.jobId
  if a.pausedRestore ∧ a.entryId = none then
    if (s.job J).lifo then s.rpushLifo J
    else if 0 < (s.job J).priority then s.rpushPriority J
    else s.xaddJob J
  else s.xaddJob J

/-- Returns whether the job exists. -/
def deferActive (s : Queue) (a : DeferArgs) : Queue × Bool :=
  let J := a.jobId
  let s := ackDel s a.group a.entryId
  let s := settleListClaim s J a.entryId
  if s.jobs J = none then (s, false)
  else
    let s := (requeue s a).setState J .waiting
    (if a.undoGroupClaim then undoClaim s J else s, true)

end GlideMq
