import GlideMq.Model.Admin
import GlideMq.Model.Schedulers

/-!
# Schedulers at work

Ticks and upserts take turns at the entries: both hold the tick lock from before they read until
after they write. A worker whose job is over holds no lock, nor does the server. Each step here is
one command or one call of the library, as it meets the entry of one name.
-/

namespace GlideMq

open Queue

/-- `SCHEDULER_CAS_ATTEMPTS`. -/
def schedulerCasAttempts : Nat := 5

/-- What a tick writes to the entry in its last transaction. -/
inductive TickWrite where
  | put (next : SchedulerEntry)
  | delete
  | fire (following : Option Int)
  deriving DecidableEq

/-- Where the holder of the tick lock stands. `e` is the entry that a tick has read. -/
inductive LockHolder where
  | free
  /-- A tick is about to read the entries. -/
  | tick (now : Int)
  /-- It is about to look at the job that the entry is parked on. -/
  | look (e : SchedulerEntry) (now : Int) (J : JobId)
  /-- It is about to compare and set a parked entry. -/
  | advance (e next : SchedulerEntry)
  /-- It is about to ask whether the last job is over. -/
  | await (e : SchedulerEntry) (now : Int) (following : Option Int) (J : JobId)
  | write (e : SchedulerEntry) (now : Int) (w : TickWrite)
  /-- An upsert is about to read the entry. -/
  | upsert (schedule : Schedule) (template : Option String) (attempt : Nat)
  /-- It is about to compare and set it. -/
  | cas (schedule : Schedule) (template : Option String) (attempt : Nat)
      (existing : Option SchedulerEntry) (next : SchedulerEntry)
  | done
  deriving DecidableEq

/-- Where a worker stands that reports a job to the scheduler, with the number of upserts that had
succeeded when it read the entry. -/
inductive Completion where
  | idle
  | read (J : JobId) (now : Int) (attempt : Nat)
  | cas (J : JobId) (now : Int) (attempt : Nat) (e next : SchedulerEntry) (readAt : Nat)
  | delete (e : SchedulerEntry) (readAt : Nat)
  deriving DecidableEq

structure SchedulerState where
  server : Queue
  name : String
  holder : LockHolder := .free
  completions : Nat → Completion := fun _ => .idle
  /-- History: the upserts that have succeeded, now and when the tick read the entry. -/
  upserts : Nat := 0
  readAt : Nat := 0
  /-- History: how many jobs the entry has fired since it was made or its count was reset. -/
  fired : Nat := 0
  /-- History: the last of its jobs, with all that was ever over since it was fired. -/
  lastFired : Option JobId := none
  wasOver : JobId → Bool := fun _ => false

namespace SchedulerState

def entry (s : SchedulerState) : Option SchedulerEntry := s.server.schedulers s.name

/-- After a change on the server: an entry that is removed has fired nothing. -/
def withServer (s : SchedulerState) (t : Queue) : SchedulerState :=
  { s with
    server := t
    fired := if t.schedulers s.name = none then 0 else s.fired
    lastFired := if t.schedulers s.name = none then none else s.lastFired
    wasOver := fun J => s.wasOver J || ended (t.stateOf J) }

def setEntry (s : SchedulerState) (e : Option SchedulerEntry) : SchedulerState :=
  s.withServer (s.server.setScheduler s.name e)

/-- The entry has fired a job. -/
def recordFired (s : SchedulerState) (J : JobId) : SchedulerState :=
  if s.entry = none then s
  else
    { s with
      fired := s.fired + 1
      lastFired := some J
      wasOver := Function.update s.wasOver J (ended (s.server.stateOf J)) }

/-- An upsert has replaced the entry. -/
def recordUpsert (s : SchedulerState) (existing : Option SchedulerEntry) (schedule : Schedule) :
    SchedulerState :=
  { s with
    upserts := s.upserts + 1
    fired := if existing.any (keepsCount · schedule) then s.fired else 0 }

end SchedulerState

inductive SchedulerStep where
  | lockTick (now : Int)
  | readTick (prepared : Bool)
  | lookAtJob
  | advanceParked
  | awaitInflight
  /-- The tick's transaction, with the id reserved for the job. -/
  | writeBatch (id : Nat) (args : AddArgs)
  | lockUpsert (schedule : Schedule) (template : Option String)
  | readUpsert (now : Int)
  | casUpsert
  /-- The holder is through, or gives up. -/
  | release
  | removeScheduler
  | complete (w : Nat) (J : JobId) (now : Int)
  | readEntry (w : Nat)
  | writeEntry (w : Nat)
  /-- The server's own step when it fails a job for good. -/
  | failJob (J : JobId) (timestamp : Int)
  /-- Anything else that happens to the queue. -/
  | others (t : Queue)

/-- What the tick goes on with. -/
def tickWork (e : SchedulerEntry) (now : Int) : TickPlan → LockHolder
  | .wait => .done
  | .delete => .write e now .delete
  | .parked J => .look e now J
  | .skip next => .write e now (.put next)
  | .fire following none => .write e now (.fire following)
  | .fire following (some J) => .await e now following J

/-- The transaction at the end of a tick. -/
def tickBatch (s : SchedulerState) (e : SchedulerEntry) (now : Int) (id : Nat) (args : AddArgs) :
    TickWrite → SchedulerState
  | .put next => s.setEntry (some next)
  | .delete => s.setEntry none
  | .fire following =>
    let J := id.repr
    let t := (addJob s.server { args with customJobId := some J, schedulerName := some s.name }).1
    (s.withServer (t.setScheduler s.name (firedEntry e now following J))).recordFired J

section

variable (nextCronOccurrence : String → Int → Option String → Except String Int)

def schedulerStep (s : SchedulerState) : SchedulerStep → SchedulerState
  | .lockTick now => if s.holder = .free then { s with holder := .tick now } else s
  | .readTick prepared =>
    match s.holder with
    | .tick now =>
      match s.entry with
      | none => { s with holder := .done }
      | some e =>
        { s with
          holder := tickWork e now (planTick nextCronOccurrence e now prepared)
          readAt := s.upserts }
    | _ => s
  | .lookAtJob =>
    match s.holder with
    | .look e now J =>
      if ended (s.server.stateOf J) then
        match advancedEntry nextCronOccurrence e now with
        | none => { s with holder := .write e now .delete }
        | some next => { s with holder := .advance e next }
      else { s with holder := .done }
    | _ => s
  | .advanceParked =>
    match s.holder with
    | .advance e next =>
      { s.withServer (casSchedulerEntry s.server s.name (some e) next).1 with holder := .done }
    | _ => s
  | .awaitInflight =>
    match s.holder with
    | .await e now following J =>
      let (t, result) := schedulerAwaitInflight s.server s.name J e
      { s.withServer t with
        holder := if result = .finished then .write e now (.fire following) else .done }
    | _ => s
  | .writeBatch id args =>
    match s.holder with
    | .write e now w => { tickBatch s e now id args w with holder := .done }
    | _ => s
  | .lockUpsert schedule template =>
    if s.holder = .free ∧ isValidSchedule schedule then
      { s with holder := .upsert schedule template 0 }
    else s
  | .readUpsert now =>
    match s.holder with
    | .upsert schedule template attempt =>
      match upsertEntry nextCronOccurrence s.entry schedule template now with
      | .error _ => { s with holder := .done }
      | .ok next => { s with holder := .cas schedule template attempt s.entry next }
    | _ => s
  | .casUpsert =>
    match s.holder with
    | .cas schedule template attempt existing next =>
      match casSchedulerEntry s.server s.name existing next with
      | (t, true) => { (s.withServer t).recordUpsert existing schedule with holder := .done }
      | (_, false) =>
        if schedulerCasAttempts ≤ attempt + 1 then { s with holder := .done }
        else { s with holder := .upsert schedule template (attempt + 1) }
    | _ => s
  | .release => { s with holder := .free }
  | .removeScheduler => if s.holder = .free then s.setEntry none else s
  | .complete w J now =>
    if s.completions w = .idle then
      { s with completions := Function.update s.completions w (.read J now 0) }
    else s
  | .readEntry w =>
    match s.completions w with
    | .read J now attempt =>
      { s with
        completions := Function.update s.completions w
          (match s.entry with
          | none => .idle
          | some e =>
            if ignoresCompletion e J then .idle
            else
              match advancedEntry nextCronOccurrence e now with
              | none => .delete e s.upserts
              | some next => .cas J now attempt e next s.upserts) }
    | _ => s
  | .writeEntry w =>
    match s.completions w with
    | .delete _ _ => { s.setEntry none with completions := Function.update s.completions w .idle }
    | .cas J now attempt e next _ =>
      let (t, written) := casSchedulerEntry s.server s.name (some e) next
      { s.withServer t with
        completions := Function.update s.completions w
          (if written ∨ 3 ≤ attempt + 1 then .idle else .read J now (attempt + 1)) }
    | _ => s
  | .failJob J timestamp => s.withServer (advanceRepeatAfterComplete s.server J timestamp)
  | .others t => s.withServer { t with schedulers := s.server.schedulers }

end

end GlideMq
