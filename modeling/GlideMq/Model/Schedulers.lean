import GlideMq.Lua.Double
import GlideMq.Model.Ordering

/-!
# Job schedulers

An entry of the schedulers hash says when the next job of its schedule is due. A tick of the
scheduler fires what is due and sets the next run. A schedule with `repeatAfterComplete` waits for
its job, with `nextRun` 0, until the end of the job sets the next run.

Times are doubles that are whole numbers of milliseconds. A sum, a difference or a product of two is rounded,
and so is a quotient before its floor is taken.
-/

namespace GlideMq

/-- `Number.MAX_SAFE_INTEGER`. -/
def maxSafeInteger : Int := 9007199254740991

/-- A text that counts as true. -/
def nonempty (text : Option String) : Option String := text.filter (· ≠ "")

def isValidSchedulerEvery (every : Int) : Bool := 0 < every ∧ every ≤ maxSafeInteger

def validateSchedulerEvery (every : Int) : Except String Unit :=
  if every = 0 ∨ isValidSchedulerEvery every then pure ()
  else throw "every must be a positive safe integer"

def validateSchedulerBounds (startDate endDate limit : Option Int) : Except String Unit := do
  if ∃ first ∈ startDate, ∃ last ∈ endDate, last < first then
    throw "startDate must be less than or equal to endDate"
  if ∃ n ∈ limit, n ≤ 0 then throw "limit must be a positive integer"

/-- The checks of `upsertJobScheduler` before it takes the lock. -/
def validateSchedule (schedule : Schedule) : Except String Unit := do
  validateSchedulerEvery schedule.every
  if schedule.repeatAfterComplete ≠ 0 ∧ !isValidSchedulerEvery schedule.repeatAfterComplete then
    throw "repeatAfterComplete must be a positive safe integer"
  let modes := [(nonempty schedule.pattern).isSome, schedule.every ≠ 0, schedule.repeatAfterComplete ≠ 0]
  if modes.count true = 0 then
    throw "Schedule must have pattern (cron), every (ms interval), or repeatAfterComplete (ms)"
  if 1 < modes.count true then
    throw "Schedule options pattern, every, and repeatAfterComplete are mutually exclusive"
  validateSchedulerBounds schedule.startDate schedule.endDate schedule.limit

def isValidSchedule (schedule : Schedule) : Bool :=
  match validateSchedule schedule with
  | .ok _ => true
  | .error _ => false

/-- A run that is not after the end date. -/
def withinEnd (endDate : Option Int) (nextRun : Int) : Option Int :=
  if ∃ last ∈ endDate, last < nextRun then none else some nextRun

/-- The start date, if it is still to come. -/
def startOrNow (startDate : Option Int) (now : Int) : Int :=
  match startDate with
  | some start => if now < start then start else now
  | none => now

/-- The first run of an interval. -/
def firstInterval (every : Int) (startDate : Option Int) (now : Int) : Int :=
  match startDate with
  | none => Lua.nearestInt (now + every)
  | some start =>
    if now < start then start
    else
      let elapsed := Lua.nearestInt (now - start)
      let steps := ⌈Lua.nearest (elapsed / every)⌉
      Lua.nearestInt (start + Lua.nearestInt (steps * every))

section

-- the pattern, the time and the time zone
variable (nextCronOccurrence : String → Int → Option String → Except String Int)

def computeInitialSchedulerNextRun (schedule : Schedule) (now : Int) : Except String (Option Int) := do
  if nonempty schedule.pattern = none ∧ schedule.repeatAfterComplete = 0 then
    validateSchedulerEvery schedule.every
  let nextRun ←
    if schedule.repeatAfterComplete ≠ 0 then pure (startOrNow schedule.startDate now)
    else
      match nonempty schedule.pattern with
      | some pattern =>
        nextCronOccurrence pattern (Lua.nearestInt (startOrNow schedule.startDate now - 1)) schedule.tz
      | none =>
        if schedule.every ≠ 0 then pure (firstInterval schedule.every schedule.startDate now)
        else throw "Schedule must have pattern (cron), every (ms interval), or repeatAfterComplete (ms)"
  return withinEnd schedule.endDate nextRun

/-- The first run after a switch to `repeatAfterComplete` is not before the one of the old mode. -/
def holdSchedulerModeSwitch (existing : SchedulerEntry) (nextRun : Int) (endDate : Option Int) :
    Option Int :=
  if isValidSchedulerEvery existing.repeatAfterComplete ∨ existing.nextRun ≤ 0 then some nextRun
  else if nonempty existing.pattern = none ∧ !isValidSchedulerEvery existing.every then some nextRun
  else withinEnd endDate (max nextRun existing.nextRun)

/-- Whether an entry has a mode at all. -/
def SchedulerEntry.isRunnable (e : SchedulerEntry) : Bool :=
  (nonempty e.pattern).isSome || isValidSchedulerEvery e.every ||
    isValidSchedulerEvery e.repeatAfterComplete

def computeFollowingSchedulerNextRun (e : SchedulerEntry) (afterMs : Int) :
    Except String (Option Int) :=
  if !e.isRunnable then pure none
  else if e.repeatAfterComplete ≠ 0 then
    pure (withinEnd e.endDate (Lua.nearestInt (afterMs + e.repeatAfterComplete)))
  else
    match nonempty e.pattern with
    | some pattern => do
      let nextRun ← nextCronOccurrence pattern afterMs e.tz
      return withinEnd e.endDate nextRun
    | none =>
      if e.every = 0 then pure none
      else if e.nextRun ≤ afterMs then
        let elapsed := Lua.nearestInt (afterMs - e.nextRun)
        let missedIntervals := Lua.nearestInt (⌊Lua.nearest (elapsed / e.every)⌋ + 1)
        pure (withinEnd e.endDate (Lua.nearestInt (e.nextRun + Lua.nearestInt (missedIntervals * e.every))))
      else pure (withinEnd e.endDate e.nextRun)

def SchedulerEntry.limitReached (e : SchedulerEntry) : Bool := e.limit.any (· ≤ e.iterationCount)

/-! ## The tick -/

/-- What a tick makes of an entry. -/
inductive TickPlan where
  /-- The run is still to come. -/
  | wait
  | delete
  /-- The entry is parked on a job. -/
  | parked (inflight : JobId)
  /-- The template makes no job. -/
  | skip (next : SchedulerEntry)
  /-- A job is due. If it must not run beside another one, that one is given. -/
  | fire (following : Option Int) (inflight : Option JobId)

/-- The tick's look at an entry. `prepared` is whether its template makes a job. -/
def planTick (e : SchedulerEntry) (now : Int) (prepared : Bool) : TickPlan :=
  if !e.isRunnable then .delete
  else
    match nonempty e.inflightJobId with
    | some J =>
      if e.nextRun = 0 ∧ isValidSchedulerEvery e.repeatAfterComplete then .parked J else planDue (some J)
    | none => planDue none
where
  planDue (inflight : Option JobId) : TickPlan :=
    if e.nextRun = 0 ∨ now < e.nextRun then .wait
    else if e.limitReached ∨ ∃ last ∈ e.endDate, last < e.nextRun then .delete
    else
      match computeFollowingSchedulerNextRun nextCronOccurrence e now with
      | .error _ => .delete
      | .ok following =>
        if prepared then
          .fire following (if isValidSchedulerEvery e.repeatAfterComplete then inflight else none)
        else
          match following with
          | none => .delete
          | some nextRun => .skip { e with nextRun }

/-- The entry after it has fired a job, or `none` where it is deleted. -/
def firedEntry (e : SchedulerEntry) (now : Int) (following : Option Int) (J : JobId) :
    Option SchedulerEntry :=
  let e := { e with lastRun := some now, iterationCount := e.iterationCount + 1 }
  if e.limitReached then none
  else if isValidSchedulerEvery e.repeatAfterComplete then
    some { e with nextRun := 0, inflightJobId := some J }
  else following.map fun nextRun => { e with nextRun, inflightJobId := some J }

/-- What `advanceParkedEntry` and `updateSchedulerAfterComplete` make of an entry whose job is over:
the next run, or `none` where it is deleted. -/
def advancedEntry (e : SchedulerEntry) (now : Int) : Option SchedulerEntry :=
  match computeFollowingSchedulerNextRun nextCronOccurrence e now with
  | .ok (some nextRun) => if e.limitReached then none else some { e with nextRun }
  | _ => none

/-! ## The end of a job -/

/-- Whether `updateSchedulerAfterComplete` leaves the entry alone. -/
def ignoresCompletion (e : SchedulerEntry) (J : JobId) : Bool :=
  e.repeatAfterComplete = 0 || e.nextRun ≠ 0 || (nonempty e.inflightJobId).any (· ≠ J)

/-! ## The upsert -/

def boundsUnchanged (existing : SchedulerEntry) (schedule : Schedule) : Bool :=
  existing.tz = schedule.tz && existing.startDate = schedule.startDate &&
    existing.endDate = schedule.endDate

def scheduleUnchanged (existing : SchedulerEntry) (schedule : Schedule) : Bool :=
  boundsUnchanged existing schedule && existing.pattern = schedule.pattern &&
    existing.every = schedule.every && existing.repeatAfterComplete = schedule.repeatAfterComplete

/-- The entry waits for its job, and the new one is to wait for it, too. -/
def awaitingCompletion (existing : SchedulerEntry) (schedule : Schedule) : Bool :=
  existing.nextRun = 0 && isValidSchedulerEvery existing.repeatAfterComplete &&
    schedule.repeatAfterComplete ≠ 0

/-- Whether the new entry keeps the count of the old one. -/
def keepsCount (existing : SchedulerEntry) (schedule : Schedule) : Bool :=
  if awaitingCompletion existing schedule then boundsUnchanged existing schedule
  else scheduleUnchanged existing schedule && existing.nextRun ≠ 0

/-- The entry that `upsertJobScheduler` computes from the one that it reads. -/
def upsertEntry (existing : Option SchedulerEntry) (schedule : Schedule) (template : Option String)
    (now : Int) : Except String SchedulerEntry := do
  let initial ← computeInitialSchedulerNextRun nextCronOccurrence schedule now
  let nextRun :=
    match existing with
    | none => initial
    | some old =>
      if awaitingCompletion old schedule then initial.map fun _ => 0
      else if scheduleUnchanged old schedule ∧ old.nextRun ≠ 0 then some old.nextRun
      else if schedule.repeatAfterComplete ≠ 0 then
        initial.bind fun n => holdSchedulerModeSwitch old n schedule.endDate
      else initial
  let kept := existing.filter (keepsCount · schedule)
  match nextRun with
  | none => throw "Schedule has no occurrences within the configured bounds"
  | some nextRun =>
    return { toSchedule := schedule
             iterationCount := (kept.map SchedulerEntry.iterationCount).getD 0
             template
             lastRun := kept.bind SchedulerEntry.lastRun
             nextRun
             inflightJobId := existing.bind SchedulerEntry.inflightJobId }

end

end GlideMq
