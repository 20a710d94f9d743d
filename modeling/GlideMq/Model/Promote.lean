import GlideMq.Model.Claim

/-!
# Promotion

The scheduler's ticks: due scheduled jobs go to the lists or the stream, and groups whose pause is
over get their parked jobs back.
-/

namespace GlideMq

open Queue

/-! ## Scheduled jobs -/

/-- The text before and after the first `||`. -/
def splitBars : List Char → Option (List Char × List Char)
  | '|' :: '|' :: rest => some ([], rest)
  | c :: rest => (splitBars rest).map fun (a, b) => (c :: a, b)
  | [] => none

/-- A scheduled member is a job id, or a job id, `||` and a subscription. -/
def splitMember (member : String) : JobId × Option Group :=
  match splitBars member.toList with
  | none => (member, none)
  | some (J, group) => (String.ofList J, if group = [] then none else some (String.ofList group))

def promoteMember (priority now serverNow : Int) (s : Queue) (member : String) : Queue :=
  let (J, retryGroup) := splitMember member
  match checkExpired (s.zremScheduled member) J now serverNow with
  | (s, true) => s
  | (s, false) =>
    let s :=
      if (s.job J).lifo then s.rpushLifo J
      else if 0 < priority then s.lpushPriority J
      else
        match retryGroup with
        | some group => s.xaddRetry J group
        | none => s.xaddJob J
    s.setState J .waiting

/-- `MAX_PROMOTIONS`. -/
def maxPromotions : Nat := 1000

/-- The rounds of `promote`, one priority each. A round passes every member of its priority, so as
many rounds as there are members are enough. -/
def promoteRounds (now serverNow : Int) : Nat → Queue → Nat → Int → Queue × Nat
  | 0, s, count, _ => (s, count)
  | fuel + 1, s, count, cursorMin =>
    if maxPromotions ≤ count then (s, count)
    else
      match s.scheduled.items.find? (fun p => cursorMin ≤ p.2) with
      | none => (s, count)
      | some (_, firstScore) =>
        let priority := firstScore / priorityShift
        let minScore := priority * priorityShift
        let members := s.scheduled.rangeByScore minScore (minScore + now) (maxPromotions - count)
        promoteRounds now serverNow fuel (members.foldl (promoteMember priority now serverNow) s)
          (count + members.length) ((priority + 1) * priorityShift)

/-- Returns how many members were taken. -/
def promote (s : Queue) (now serverNow : Int) : Queue × Nat :=
  promoteRounds now serverNow (s.scheduled.card + 1) s 0 0

def nextDue (s : Queue) : Int :=
  let scheduled := s.scheduled.first?.map fun p => p.2 % priorityShift
  let limited := s.ratelimited.first?.map Prod.snd
  match scheduled, limited with
  | some due, some limitedDue => if limitedDue < due then limitedDue else due
  | some due, none => due
  | none, some limitedDue => limitedDue
  | none, none => -1

/-- What the scheduler reads in the reply. -/
def nextDueAt (s : Queue) : Option Int := if nextDue s < 0 then none else some (nextDue s)

/-! ## Groups after a pause -/

inductive SweepCheck where
  /-- The head may start. -/
  | ready
  /-- No head was found ready. -/
  | unready
  /-- The group waits. -/
  | blocked
  deriving DecidableEq

/-- The peek at the head job, with the refill rate raised to 1. -/
def sweepHead (gk : GroupKey) (now serverNow tokens : Int) :
    Nat → Queue → Nat → Queue × Nat × SweepCheck
  | 0, s, nextSeq => (s, nextSeq, .unready)
  | checks + 1, s, nextSeq =>
    match (s.groupq gk).first? with
    | none => (s, nextSeq, .unready)
    | some (J, score) =>
      match s.jobs J with
      | none =>
        let (s, nextSeq) := consumeOrderedTombstone (s.zremGroupq gk J) gk nextSeq J score
        sweepHead gk now serverNow tokens checks s nextSeq
      | some job =>
        let g := s.groups gk
        let cost := job.cost.getD 1000
        if g.tbCapacity < cost then
          let s := failOversize (s.zremGroupq gk J) J gk now
          (closeOrderingHoleAndPromote s J now serverNow, nextSeq, .blocked)
        else if tokens < cost then
          let delay := ceilDiv ((cost - tokens) * 1000) (max g.tbRefillRate 1)
          (s.zaddRatelimited gk (now + delay), nextSeq, .blocked)
        else (s, nextSeq, .ready)

/-- The token bucket check of the sweep, and the tokens it found. -/
def sweepGate (s : Queue) (gk : GroupKey) (now serverNow : Int) : Queue × Nat × Int × Bool :=
  let nextSeq := (s.groups gk).nextSeq
  if (s.groups gk).tbCapacity ≤ 0 then (s, nextSeq, 0, true)
  else
    let (s, tokens) := refill s gk serverNow
    match sweepHead gk now serverNow tokens 100 s nextSeq with
    | (s, nextSeq, .ready) => (s, nextSeq, tokens, true)
    | (s, nextSeq, .blocked) => (s, nextSeq, tokens, false)
    | (s, nextSeq, .unready) =>
      if 0 < (s.groupq gk).card then (s.zaddRatelimited gk now, nextSeq, tokens, false)
      else (s, nextSeq, tokens, true)

/-- The returning jobs that are still parked. The others leave the set. -/
def readyReturners (s : Queue) (gk : GroupKey) : Queue × List JobId :=
  ((s.returning gk).take 1000).foldl
    (fun (s, ready) J =>
      if s.stateOf J = some .groupWaiting ∧ 0 < (s.job J).orderingSeq ∧ J ∈ s.groupq gk then
        (s, ready ++ [J])
      else (s.zremReturning gk J, ready))
    (s, [])

structure Returners where
  promotable : List JobId := []
  resumeAt : Option Int := none
  tokens : Int

/-- The bucket's check of one returning job. -/
def checkReturner (g : GroupHash) (gk : GroupKey) (now serverNow : Int)
    (r : Queue × Returners) (J : JobId) : Queue × Returners :=
  let (s, r) := r
  let cost := (s.job J).cost.getD 1000
  if 0 < g.tbCapacity ∧ g.tbCapacity < cost then
    let s := failOversize (s.zremGroupq gk J) J gk now
    (closeOrderingHoleAndPromote s J now serverNow, r)
  else if 0 < g.tbCapacity ∧ r.tokens < cost then
    let resumeAt := now + ceilDiv ((cost - r.tokens) * 1000) (max g.tbRefillRate 1)
    (s, { r with resumeAt := some (min resumeAt (r.resumeAt.getD resumeAt)) })
  else
    (s, { r with
      promotable := r.promotable ++ [J]
      tokens := if 0 < g.tbCapacity then r.tokens - cost else r.tokens })

def promoteReturner (gk : GroupKey) (s : Queue) (J : JobId) : Queue :=
  (promoteJobOfGroup (s.zremGroupq gk J) J).zremReturning gk J

/-- A parked job from before the frontier, which goes to the head of the wait queue. -/
def earlierHead (s : Queue) (gk : GroupKey) (nextSeq : Nat) : Option (Queue × JobId) :=
  let members := (s.groupq gk).take 128
  let earlier (J : JobId) : Bool := 0 < (s.job J).orderingSeq ∧ (s.job J).orderingSeq < nextSeq
  match members.find? earlier with
  | none => none
  | some J =>
    some (if members.head? = some J then s else s.zaddGroupq gk J (s.job J).orderingSeq, J)

/-- The `ZPOPMIN` loop of the sweep. A deleted member is dropped: a missing field reads as
`false`, so the test `nextState == nil` never holds. -/
def sweepLoop (gk : GroupKey) (now serverNow : Int) (paused : Bool) :
    Nat → Nat → Queue → Nat → Nat → Queue × Nat
  | 0, _, s, _, promoted => (s, promoted)
  | _ + 1, 0, s, _, promoted => (s, promoted)
  | iter + 1, left + 1, s, nextSeq, promoted =>
    match (s.groupq gk).first? with
    | none => (s, promoted)
    | some (J, _) =>
      let s := s.zremGroupq gk J
      if paused ∧ J ∈ s.returning gk then (s.zaddGroupq gk J (groupqScore s J), promoted)
      else if s.stateOf J ≠ some .groupWaiting then
        sweepLoop gk now serverNow paused iter (left + 1) s nextSeq promoted
      else
        match checkExpired s J now serverNow with
        | (s, true) => sweepLoop gk now serverNow paused iter (left + 1) s nextSeq promoted
        | (s, false) =>
          let seq := (s.job J).orderingSeq
          if 0 < nextSeq ∧ nextSeq < seq then (s.zaddGroupq gk J seq, promoted)
          else
            sweepLoop gk now serverNow paused iter left (promoteJobOfGroup s J)
              (if 0 < nextSeq ∧ (seq = 0 ∨ nextSeq ≤ seq) then nextSeq + 1 else nextSeq)
              (promoted + 1)

/-- How many jobs the group may get back, before the returning ones are counted. -/
def sweepLimit (g : GroupHash) : Int :=
  let n := if 0 < g.rateMax then min 1000 g.rateMax else 1000
  if 0 < g.maxConcurrency then min n (max 0 (g.maxConcurrency - g.active)) else n

/-- The jobs of one group that go back into the stream, `g` being the hash at the start. -/
def sweepPromote (s : Queue) (gk : GroupKey) (g : GroupHash) (nextSeq : Nat)
    (tokens now serverNow : Int) : Queue × Nat :=
  let limit := sweepLimit g
  let (s, nextSeq) := skipToNext s gk nextSeq
  let (s, ready) := readyReturners s gk
  let (s, r) := ready.foldl (checkReturner g gk now serverNow) (s, { tokens })
  let s :=
    match r.resumeAt with
    | none => s
    | some t => s.zaddRatelimited gk t
  let count := r.promotable.length
  let (s, limit) :=
    if 0 < count then (s, min 1000 (limit + count))
    else if limit = 0 ∧ 0 < nextSeq ∧ r.resumeAt = none then
      match earlierHead s gk nextSeq with
      | none => (s, limit)
      | some (s, _) => (s, 1)
    else (s, limit)
  let s := r.promotable.foldl (promoteReturner gk) s
  sweepLoop gk now serverNow r.resumeAt.isSome (limit.toNat + 20) (limit.toNat - count) s nextSeq
    count

/-- One group of the sweep. -/
def sweepGroup (now serverNow : Int) (r : Queue × Nat) (gk : GroupKey) : Queue × Nat :=
  let s := r.1.zremRatelimited gk
  let g := s.groups gk
  let (s, nextSeq, tokens, passed) := sweepGate s gk now serverNow
  if passed then
    let (s, promoted) := sweepPromote s gk g nextSeq tokens now serverNow
    (s, r.2 + promoted)
  else (s, r.2)

/-- Returns how many jobs went back into the stream. -/
def promoteRateLimited (s : Queue) (now serverNow : Int) : Queue × Nat :=
  (s.ratelimited.rangeByScore 0 now 100).foldl (sweepGroup now serverNow) (s, 0)

end GlideMq
