import GlideMq.Machine.Runs
import GlideMq.Model.Admin
import GlideMq.Model.Chain
import GlideMq.Model.Promote

/-!
# Calls

A run is any sequence of calls on any of the server's queues. The registered functions that touch
none of the modelled keys are left out: locks, the queue's rate limit, budgets, searches, and
`updateJobFields`, which no caller gives a modelled field.
-/

namespace GlideMq

open Queue

/-- A call on the keys of one queue. The last group is what a worker or a client does with plain
commands. -/
inductive Call where
  | addJob (a : AddArgs)
  | dedup (a : DedupArgs)
  | promote (now serverNow : Int)
  | promoteRateLimited (now serverNow : Int)
  | complete (a : CompleteArgs)
  | completeAndFetchNext (a : CompleteNextArgs)
  | fail (a : FailArgs) (requeueOnly : Bool)
  | failAndFetchNext (a : FailArgs) (consumer : String)
  | reclaimStalled (a : ReclaimArgs) (visited : Nat → Bool)
  | reclaimStalledListJobs (a : ReclaimListArgs) (scan : Scan)
  | getActiveListJobIds (scan : Scan)
  | healListActive (scan : Scan)
  | rpopAndReserve (k : ListKey) (group : Group) (count : Nat)
  | popLists (count : Nat)
  | popListsReserve (count : Nat)
  | moveToActive (a : MoveArgs)
  | deferActive (a : DeferArgs)
  | removeJob (J : JobId) (serverNow : Int)
  | clean (t : TerminalSet) (cutoff : Int) (limit : Nat)
  | revoke (J : JobId) (timestamp serverNow : Int) (group : Group)
  | changePriority (J : JobId) (newPriority : Nat) (group : Group)
  | changeDelay (J : JobId) (newDelay now : Int) (group : Group)
  | promoteJob (J : JobId)
  | moveActiveToDelayed (a : PostponeArgs) (delayedUntil : Int)
  | moveToWaitingChildren (a : PostponeArgs)
  | suspend (a : PostponeArgs) (timeout : Int)
  | signal (J : JobId)
  | sweepSuspended (now serverNow : Int)
  | rateLimitGroup (a : RateLimitArgs)
  | rateLimitGroupExternal (gk : GroupKey) (duration timestamp : Int) (extendMax : Bool)
  | drain (drainDelayed : Bool) (group : Group) (serverNow : Int)
  | retryJobs (count : Nat) (timestamp : Int)
  | retryJob (J : JobId) (timestamp : Int)
  | registerChildDep (parentId : JobId) (m : DepMember)
  | completeChild (parentId : JobId) (m : DepMember)
  | healEarlyDeps (page : List JobId)
  | casSchedulerEntry (name : String) (old : Option SchedulerEntry) (new : SchedulerEntry)
  | schedulerAwaitInflight (name : String) (J : JobId) (old : SchedulerEntry)
  | pause
  | resume
  /-- `XREADGROUP ... COUNT 1 >`. -/
  | readGroup (group : Group) (consumer : String)
  /-- `DECRBY list-active`, of a worker whose list claim could not start. -/
  | releaseReservation (n : Nat)
  /-- `HSET meta globalConcurrency`. -/
  | setGlobalConcurrency (n : Int)
  /-- `SREM xq-pending`, after the notification was delivered. -/
  | removeNotification (n : ParentNotify)

def readGroup (s : Queue) (group : Group) (consumer : String) : Queue :=
  match s.stream.next? group with
  | none => s
  | some e => s.deliver group consumer e

def setGlobalConcurrency (s : Queue) (n : Int) : Queue := { s with globalConcurrency := n }

/-- The queue after a call. -/
def Call.run (s : Queue) : Call → Queue
  | .addJob a => (GlideMq.addJob s a).1
  | .dedup a => (GlideMq.dedup s a).1
  | .promote now serverNow => (GlideMq.promote s now serverNow).1
  | .promoteRateLimited now serverNow => (GlideMq.promoteRateLimited s now serverNow).1
  | .complete a => (GlideMq.complete s a).1
  | .completeAndFetchNext a => (GlideMq.completeAndFetchNext s a).1
  | .fail a requeueOnly => (GlideMq.fail s a requeueOnly).1
  | .failAndFetchNext a consumer => (GlideMq.failAndFetchNext s a consumer).1
  | .reclaimStalled a visited => GlideMq.reclaimStalled s a visited
  | .reclaimStalledListJobs a scan => GlideMq.reclaimStalledListJobs s a scan
  | .getActiveListJobIds scan => (activeListIds s scan).1
  | .healListActive scan => (GlideMq.healListActive s scan).1
  | .rpopAndReserve k group count => (GlideMq.rpopAndReserve s k group count).1
  | .popLists count => (GlideMq.popLists s count).1
  | .popListsReserve count => (GlideMq.popListsReserve s count).1
  | .moveToActive a => (GlideMq.moveToActive s a).1
  | .deferActive a => (GlideMq.deferActive s a).1
  | .removeJob J serverNow => (GlideMq.removeJob s J serverNow).1
  | .clean t cutoff limit => (GlideMq.clean s t cutoff limit).1
  | .revoke J timestamp serverNow group => (GlideMq.revoke s J timestamp serverNow group).1
  | .changePriority J newPriority group => (GlideMq.changePriority s J newPriority group).1
  | .changeDelay J newDelay now group => (GlideMq.changeDelay s J newDelay now group).1
  | .promoteJob J => (GlideMq.promoteJob s J).1
  | .moveActiveToDelayed a delayedUntil => (GlideMq.moveActiveToDelayed s a delayedUntil).1
  | .moveToWaitingChildren a => (GlideMq.moveToWaitingChildren s a).1
  | .suspend a timeout => (GlideMq.suspend s a timeout).1
  | .signal J => (GlideMq.signal s J).1
  | .sweepSuspended now serverNow => GlideMq.sweepSuspended s now serverNow
  | .rateLimitGroup a => (GlideMq.rateLimitGroup s a).1
  | .rateLimitGroupExternal gk duration timestamp extendMax =>
    (GlideMq.rateLimitGroupExternal s gk duration timestamp extendMax).1
  | .drain drainDelayed group serverNow => GlideMq.drain s drainDelayed group serverNow
  | .retryJobs count timestamp => (GlideMq.retryJobs s count timestamp).1
  | .retryJob J timestamp => (GlideMq.retryJob s J timestamp).1
  | .registerChildDep parentId m => (GlideMq.registerChildDep s parentId m).1
  | .completeChild parentId m => (GlideMq.completeChild s parentId m).1
  | .healEarlyDeps page => (GlideMq.healEarlyDeps s page).1
  | .casSchedulerEntry name old new => (GlideMq.casSchedulerEntry s name old new).1
  | .schedulerAwaitInflight name J old => (GlideMq.schedulerAwaitInflight s name J old).1
  | .pause => GlideMq.pause s
  | .resume => GlideMq.resume s
  | .readGroup group consumer => GlideMq.readGroup s group consumer
  | .releaseReservation n => s.setListActive (s.listActive - n)
  | .setGlobalConcurrency n => GlideMq.setGlobalConcurrency s n
  | .removeNotification n => s.sremXqPending n

/-- A call on the server: on one queue, or one of the two functions that may touch several. -/
inductive SysCall where
  | on (q : QueueName) (c : Call)
  | addFlow (a : FlowArgs)
  | registerParent (child parent : DepMember)

def sysStep (S : Sys) : SysCall → Sys
  | .on q c => onQueue S q (Call.run · c)
  | .addFlow a => (GlideMq.addFlow S a).1
  | .registerParent child parent => (GlideMq.registerParent S child parent).1

/-- A server without data. -/
def emptySys : Sys := fun q => { name := q }

end GlideMq
