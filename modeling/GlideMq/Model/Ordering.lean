import GlideMq.Model.Commands
import Mathlib.Algebra.Order.Floor.Ring

/-!
# Ordering frontiers

A key has two frontiers: `nextSeq` of its group, the next sequence to activate, and
`orderdone`, the last sequence of an unbroken run of finished jobs.
-/

namespace GlideMq

open Queue

/-! ## Done frontier -/

/-- The loop of `markOrderingDone`. A round takes one mark away, so as many rounds as there are
marks are enough. -/
def runDone : Nat → List Nat → Nat → List Nat × Nat
  | 0, pending, advanced => (pending, advanced)
  | fuel + 1, pending, advanced =>
    if advanced + 1 ∈ pending then
      runDone fuel (pending.filter (· ≠ advanced + 1)) (advanced + 1)
    else (pending, advanced)

/-- The key and the sequence are hints where the caller has read them, else they come from the
job hash. -/
def markOrderingDone (s : Queue) (J : JobId) (hintKey : Option GroupKey) (hintSeq : Option Nat) :
    Queue :=
  let job := (s.jobs J).getD {}
  match hintKey <|> job.orderingKey <|> job.groupKey with
  | none => s
  | some key =>
    let seq := hintSeq.getD job.orderingSeq
    let lastDone := s.orderdone key
    let pending := s.orderdonePending key
    if seq ≤ 0 then s
    else if seq ≤ lastDone then s.setOrderdonePending key (pending.filter (· ≠ seq))
    else
      let marked := pending.insert seq
      let (rest, advanced) := runDone marked.length marked lastDone
      (s.setOrderdonePending key rest).setOrderdone key advanced

/-! ## Admission frontier -/

/-- `MAX_SKIP_ADVANCE_STEPS`. -/
def maxSkipAdvanceSteps : Nat := 128

/-- The markers that are left, and the sequence after the ones that were used. -/
def runSkips : Nat → List Nat → Nat → List Nat × Nat
  | 0, skip, nextSeq => (skip, nextSeq)
  | steps + 1, skip, nextSeq =>
    if nextSeq ∈ skip then runSkips steps (skip.filter (· ≠ nextSeq)) (nextSeq + 1)
    else (skip, nextSeq)

/-- The sequence that `advancePastSkips` returns. -/
def skipsEnd (g : GroupHash) (nextSeq : Nat) : Nat := (runSkips maxSkipAdvanceSteps g.skip nextSeq).2

/-- The markers that `advancePastSkips` deletes. -/
def advancePastSkips (s : Queue) (gk : GroupKey) (nextSeq : Nat) : Queue :=
  s.hgroup gk fun g => { g with skip := (runSkips maxSkipAdvanceSteps g.skip nextSeq).1 }

def setNextSeq (s : Queue) (gk : GroupKey) (n : Nat) : Queue :=
  s.hgroup gk ({ · with nextSeq := n })

/-- Returns the sequence that the caller goes on with. -/
def consumeOrderedTombstone (s : Queue) (gk : GroupKey) (nextSeq : Nat) (J : JobId) (jobSeq : Int) :
    Queue × Nat :=
  if nextSeq = 0 ∨ jobSeq ≠ nextSeq then (s, nextSeq)
  else
    let s := markOrderingDone s J (some gk) (some nextSeq)
    let n := skipsEnd (s.groups gk) (nextSeq + 1)
    (setNextSeq (advancePastSkips s gk (nextSeq + 1)) gk n, n)

/-- The step before a promotion: markers at the frontier are used up. -/
def skipToNext (s : Queue) (gk : GroupKey) (nextSeq : Nat) : Queue × Nat :=
  if nextSeq = 0 then (s, 0)
  else
    let n := skipsEnd (s.groups gk) nextSeq
    let s := advancePastSkips s gk nextSeq
    (if nextSeq < n then setNextSeq s gk n else s, n)

/-- The guarded decrement of the slot count. -/
def GroupHash.decrActive (g : GroupHash) : GroupHash :=
  { g with active := if 0 < g.active then g.active - 1 else g.active }

/-- `HDEL job:J retainedSlot`. -/
def clearRetainedSlot (s : Queue) (J : JobId) : Queue := s.hmod J ({ · with retainedSlot := false })

/-- A skip marker for a job that will never run, and the slot of a parked job that retained it. -/
def closeOrderingHole (s : Queue) (J : JobId) : Queue :=
  let job := (s.jobs J).getD {}
  match job.groupKey with
  | none => s
  | some gk =>
    if job.orderingSeq = 0 then s
    else
      let s := s.hgroup gk fun g => { g with skip := g.skip.insert job.orderingSeq }
      let s := s.zremReturning gk J
      if job.retainedSlot then (clearRetainedSlot s J).hgroup gk GroupHash.decrActive else s

/-! ## Token bucket -/

/-- Division that rounds up. -/
def ceilDiv (a b : Int) : Int := -(-a / b)

/-- The bucket after a refill at the server's clock, and its tokens. -/
def tbRefill (g : GroupHash) (serverNow : Int) : GroupHash × Int :=
  if g.tbCapacity ≤ 0 then (g, 0)
  else
    let tokens := g.tbTokens.getD g.tbCapacity
    if g.tbCapacity ≤ tokens then
      (if serverNow ≠ g.tbLastRefill.getD 0 then { g with tbLastRefill := some serverNow } else g,
        g.tbCapacity)
    else
      let last := g.tbLastRefill.getD serverNow
      let g := if serverNow < last then { g with tbLastRefill := some serverNow } else g
      let last := min last serverNow
      let elapsed := serverNow - last
      if elapsed ≤ 0 ∨ g.tbRefillRate ≤ 0 then (g, tokens)
      else
        let elapsed := min elapsed (ceilDiv (g.tbCapacity * 1000) g.tbRefillRate)
        let raw := elapsed * g.tbRefillRate + g.tbRefillRemainder
        let newTokens := min g.tbCapacity (tokens + raw / 1000)
        ({ g with
            tbTokens := some newTokens
            tbLastRefill := some serverNow
            tbRefillRemainder := raw % 1000 }, newTokens)

def refill (s : Queue) (gk : GroupKey) (serverNow : Int) : Queue × Int :=
  (s.hgroup gk fun g => (tbRefill g serverNow).1, (tbRefill (s.groups gk) serverNow).2)

/-! ## Metrics and schedulers -/

def recordMetrics (m : Int → Option Minute) (timestamp duration : Int) : Int → Option Minute :=
  let minuteTs := timestamp - timestamp % 60000
  let old := (m minuteTs).getD {}
  let count := old.count + 1
  let m := Function.update m minuteTs
    (some { count, duration := if 0 < duration then old.duration + duration else old.duration })
  if count % 1000 = 0 then
    fun t => if 0 ≤ t ∧ t < minuteTs - 86400000 then none else m t
  else m

def recordCompleted (s : Queue) (timestamp duration : Int) : Queue :=
  s.setMetricsCompleted (recordMetrics s.metricsCompleted timestamp duration)

def recordFailed (s : Queue) (timestamp duration : Int) : Queue :=
  s.setMetricsFailed (recordMetrics s.metricsFailed timestamp duration)

/-- The entry of a repeat-after-complete scheduler, advanced from its awaiting sentinel
`nextRun = 0`. -/
def SchedulerEntry.advance (e : SchedulerEntry) (J : JobId) (timestamp : Int) :
    Option SchedulerEntry :=
  if e.repeatAfterComplete ≤ 0 ∨ e.nextRun ≠ 0 then some e
  else if ∃ j ∈ e.inflightJobId, j ≠ "" ∧ j ≠ J then some e
  else
    let nextRun := timestamp + e.repeatAfterComplete
    if (∃ d ∈ e.endDate, d < nextRun) ∨ (∃ l ∈ e.limit, l ≤ e.iterationCount) then none
    else some { e with nextRun }

def advanceRepeatAfterComplete (s : Queue) (J : JobId) (timestamp : Int) : Queue :=
  match ((s.jobs J).getD {}).schedulerName with
  | none => s
  | some name =>
    match s.schedulers name with
    | none => s
    | some e => s.setScheduler name (e.advance J timestamp)

end GlideMq
