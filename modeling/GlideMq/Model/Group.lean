import GlideMq.Model.Ordering

/-!
# Groups

A job that ends or leaves its group's slot lets parked jobs of the group back into the stream.
-/

namespace GlideMq

open Queue

def Queue.job (s : Queue) (J : JobId) : Job := (s.jobs J).getD {}

/-- `HGET job:J state`. -/
def Queue.stateOf (s : Queue) (J : JobId) : Option JobState := (s.jobs J).bind Job.state

def Queue.setState (s : Queue) (J : JobId) (st : JobState) : Queue :=
  s.hset J ({ · with state := some st })

def costReason : String := "cost exceeds token bucket capacity"

def Queue.setFailed (s : Queue) (J : JobId) (reason : String) (timestamp : Int) : Queue :=
  s.hset J fun j =>
    { j with state := some .failed, failedReason := some reason, finishedOn := some timestamp }

def noteActivationFailure (s : Queue) (J : JobId) (reason : String) : Queue :=
  match s.activationFailures with
  | none => s
  | some l => s.setActivationFailures (some (l ++ [(J, reason)]))

/-- The writes that fail a job whose cost is over the capacity of its bucket. -/
def failOversize (s : Queue) (J : JobId) (gk : GroupKey) (now : Int) : Queue :=
  let s := s.zaddFailed J now
  let s := markOrderingDone s J (some gk) (some (s.job J).orderingSeq)
  advanceRepeatAfterComplete (s.setFailed J costReason now) J now

/-! ## Gates -/

/-- The gate on a sliding window: the time at which it opens, or what is left of it. What is
left is 0 where no window is active. -/
def rateGate (g : GroupHash) (now : Int) : Except Int Int :=
  if 0 < now ∧ 0 < g.rateMax ∧ 0 < g.rateDuration ∧ now - g.rateWindowStart < g.rateDuration then
    if g.rateMax ≤ g.rateCount then .error (g.rateWindowStart + g.rateDuration)
    else .ok (g.rateMax - g.rateCount)
  else .ok 0

inductive HeadCheck where
  /-- The head has to wait for tokens. -/
  | wait
  /-- The passes are used up. -/
  | again
  | pass
  deriving DecidableEq

/-- An oversized head: it fails, and its hole is closed. -/
def failHead (s : Queue) (gk : GroupKey) (J : JobId) (now : Int) : Queue :=
  let processedOn := (s.job J).processedOn.getD now
  let s := failOversize (s.zremGroupq gk J) J gk now
  let s := noteActivationFailure s J costReason
  closeOrderingHole (recordFailed s now (now - processedOn)) J

/-- The peek at the head job: deleted and oversized heads go, up to the number of passes. -/
def peekHead (gk : GroupKey) (now tokens : Int) : Nat → Queue → Nat → Queue × Nat × HeadCheck
  | 0, s, nextSeq => (s, nextSeq, .again)
  | passes + 1, s, nextSeq =>
    let stop : HeadCheck := if passes = 0 then .again else .pass
    match (s.groupq gk).first? with
    | none => (s, nextSeq, stop)
    | some (J, score) =>
      match s.jobs J with
      | none =>
        let (s, nextSeq) := consumeOrderedTombstone (s.zremGroupq gk J) gk nextSeq J score
        peekHead gk now tokens passes s nextSeq
      | some job =>
        let g := s.groups gk
        let cost := job.cost.getD 1000
        if g.tbCapacity < cost then peekHead gk now tokens passes (failHead s gk J now) nextSeq
        else if tokens < cost then
          if g.tbRefillRate ≤ 0 then (s, nextSeq, stop)
          else
            let delay := ceilDiv ((cost - tokens) * 1000) g.tbRefillRate
            (s.zaddRatelimited gk (now + delay), nextSeq, .wait)
        else (s, nextSeq, .pass)

/-- The token bucket gate. -/
def tokenGate (s : Queue) (gk : GroupKey) (now serverNow : Int) : Queue × Nat × HeadCheck :=
  let nextSeq := (s.groups gk).nextSeq
  if 0 < now ∧ 0 < (s.groups gk).tbCapacity then
    let (s, tokens) := refill s gk serverNow
    peekHead gk now tokens 10 s nextSeq
  else (s, nextSeq, .pass)

/-! ## Promotion -/

/-- Puts a parked job back into the stream. -/
def promoteJobOfGroup (s : Queue) (J : JobId) : Queue := (s.xaddJob J).setState J .waiting

/-- The `ZPOPMIN` loop. A member in another state is dropped, a deleted one too: a missing field
reads as `false`, so the test `nextState == nil` never holds. `nextSeq` is the loop's own
count, the hash keeps its value. -/
def promoteLoop (gk : GroupKey) : Nat → Nat → Queue → Nat → Queue
  | 0, _, s, _ => s
  | _ + 1, 0, s, _ => s
  | iter + 1, left + 1, s, nextSeq =>
    match (s.groupq gk).first? with
    | none => s
    | some (J, _) =>
      let s := s.zremGroupq gk J
      if s.stateOf J ≠ some .groupWaiting then promoteLoop gk iter (left + 1) s nextSeq
      else
        let seq := (s.job J).orderingSeq
        -- out of order: the job goes back and the loop stops
        if 0 < nextSeq ∧ nextSeq < seq then s.zaddGroupq gk J seq
        else
          promoteLoop gk iter left (promoteJobOfGroup s J)
            (if 0 < nextSeq then nextSeq + 1 else nextSeq)

/-- The part of `releaseGroupSlotAndPromote` after the slot is released. -/
def promoteFromGroupq (s : Queue) (gk : GroupKey) (newActive now serverNow : Int) : Queue :=
  let g := s.groups gk
  let waitLen := (s.groupq gk).card
  if waitLen = 0 then s
  else if 0 < g.maxConcurrency ∧ g.maxConcurrency ≤ newActive then s
  else
    match rateGate g now with
    | .error resumeAt => s.zaddRatelimited gk resumeAt
    | .ok rateRemaining =>
      match tokenGate s gk now serverNow with
      | (s, _, .wait) => s
      | (s, _, .again) => s.zaddRatelimited gk now
      | (s, nextSeq, .pass) =>
        let available :=
          min (if 0 < g.maxConcurrency then g.maxConcurrency - newActive else waitLen) 1000
        let available := if 0 < rateRemaining then min available rateRemaining else available
        let (s, nextSeq) := skipToNext s gk nextSeq
        promoteLoop gk (available.toNat + 20) available.toNat s nextSeq

/-- Gives a slot back. -/
def releaseSlot (s : Queue) (J : JobId) (gk : GroupKey) : Queue :=
  ((clearRetainedSlot s J).zremReturning gk J).hgroup gk GroupHash.decrActive

def releaseGroupSlotAndPromote (s : Queue) (J : JobId) (now serverNow : Int)
    (hintGroupKey : Option GroupKey) (keepSlot : Bool) : Queue :=
  match hintGroupKey <|> (s.job J).groupKey with
  | none => s
  | some gk =>
    let cur := (s.groups gk).active
    if keepSlot then promoteFromGroupq s gk cur now serverNow
    else promoteFromGroupq (releaseSlot s J gk) gk (if 0 < cur then cur - 1 else 0) now serverNow

def closeOrderingHoleAndPromote (s : Queue) (J : JobId) (now serverNow : Int) : Queue :=
  let s := closeOrderingHole s J
  match (s.job J).groupKey with
  | none => s
  | some gk =>
    if now < (s.ratelimited.score gk).getD 0 then s
    else releaseGroupSlotAndPromote s J now serverNow (some gk) true

/-! ## Expiry -/

/-- Only a job that was active holds a slot. A job that has failed already is left alone. -/
def expireJob (s : Queue) (J : JobId) (now serverNow : Int) (curState : Option JobState)
    (hintOrderingKey : Option GroupKey) (hintOrderingSeq : Option Nat)
    (hintGroupKey : Option GroupKey) : Queue :=
  if curState = some .failed then s
  else
    let processedOn := (s.job J).processedOn.getD now
    let s := (s.zaddFailed J now).setFailed J "expired" now
    let s := advanceRepeatAfterComplete s J now
    let s := markOrderingDone s J hintOrderingKey hintOrderingSeq
    let s :=
      if curState = some .active then
        releaseGroupSlotAndPromote s J now serverNow hintGroupKey false
      else closeOrderingHoleAndPromote s J now serverNow
    recordFailed s now (now - processedOn)

def isExpired (j : Job) (now : Int) : Bool := ∃ t ∈ j.expireAt, 0 < t ∧ t < now

/-- Returns whether the job is past its time. -/
def checkExpired (s : Queue) (J : JobId) (now serverNow : Int) : Queue × Bool :=
  if isExpired (s.job J) now then
    (expireJob s J now serverNow (s.stateOf J) none none none, true)
  else (s, false)

end GlideMq
