import Mathlib.Logic.Function.Basic

/-!
# The slots of a worker

`processJob` of `base-worker.ts`, as a worker of a standard queue runs it one job at a time. A slot
goes from one `await` to the next, and between two of them other slots, the poll loop and the caller
may run. What comes back from the server and from the processor is data, so a step covers whatever
other clients have done.
-/

namespace GlideMq.BaseWorker

/-- A job that this worker was given. A job from a list has no entry: its `entryId` is empty. -/
structure Claim where
  jobId : String
  entryId : String
  deriving DecidableEq

/-- What a slot reads of a job. -/
structure Job where
  orderingKey : Option String := none
  orderingSeq : Nat := 0
  budgetKey : Option String := none
  attempts : Nat := 0
  attemptsMade : Nat := 0
  /-- Whether it was resumed with signals. -/
  signals : Bool := false
  discarded : Bool := false
  deriving DecidableEq

/-- `orderingMetaField` names a field. -/
def Job.isOrdered (job : Job) : Bool := job.orderingKey.isSome && decide (0 < job.orderingSeq)

/-- The errors that `processJob` tells apart. -/
inductive Failure where
  | other
  | unrecoverable
  | rateLimit
  | delayed
  | groupRateLimit
  | waitingChildren
  | suspend
  deriving DecidableEq

/-- `planFailure`, without the delay. -/
def Job.maxAttempts (job : Job) (error : Failure) : Nat :=
  if job.discarded || error = .unrecoverable then 0 else job.attempts

/-! ## Calls and replies -/

inductive MoveResult where
  | gone
  | revoked
  | paused
  | expired
  | globalFull
  | groupFull
  | groupRateLimited
  | groupTokenLimited
  | groupOrdered
  | costExceedsCapacity
  | stale
  | hash (job : Job)
  deriving DecidableEq

/-- The server has parked or ended the job, or the claim is outdated. -/
def MoveResult.isRefused : MoveResult → Bool
  | .expired | .groupFull | .groupRateLimited | .groupTokenLimited | .groupOrdered | .costExceedsCapacity
  | .stale => true
  | _ => false

/-- A call that a slot makes about its claim. `moveToFailed` is made by the processor. -/
inductive Call where
  | moveToActive
  | deferActive (pausedRestore undoGroupClaim : Bool)
  | decrListActive
  | completeJob
  | completeAndFetchNext
  | failJob (maxAttempts : Nat) (requeueOnly : Bool)
  | failAndFetchNext (maxAttempts : Nat)
  | moveActiveToDelayed
  | rateLimitGroup
  | moveToWaitingChildren
  | suspendJob
  | moveToFailed
  deriving DecidableEq

/-- The part of a chain call's reply that decides how the slot goes on. -/
inductive Fetched where
  | none (listsEmpty : Bool)
  | revoked (next : Claim)
  | hash (next : Claim) (job : Job)
  deriving DecidableEq

def Fetched.claim : Fetched → Option Claim
  | .none _ => .none
  | .revoked next => some next
  | .hash next _ => some next

inductive Returned where
  | value
  | unserializable
  | tooLarge
  deriving DecidableEq

/-- What the run of a processor leaves behind. -/
structure Processed where
  returned : Returned := .value
  error : Option Failure := none
  aborted : Bool := false
  discarded : Bool := false
  /-- The processor has called `moveToFailed` and it went through. -/
  movedToFailed : Bool := false
  waitingChildrenRequest : Bool := false
  /-- A request to suspend, and whether it came with `onResume`. -/
  suspendRequest : Option Bool := none
  deriving DecidableEq

/-- How an `await` ends. -/
inductive Reply where
  | threw
  | done
  /-- A result that starts with `error:`. -/
  | refused
  | revoked
  /-- The loaded library does not have the function. -/
  | notFound
  | moved (r : MoveResult)
  | fetched (f : Fetched)
  | lastDone (n : Nat)
  | answer (yes : Bool)
  | slept
  | limited (aborted : Bool)
  | processed (o : Processed)
  deriving DecidableEq

/-- Whether the reply ends the worker's part in the claim. -/
def settles (c : Claim) : Call → Reply → Bool
  | .moveToActive, .moved r => r.isRefused && decide (c.entryId ≠ "")
  | _, .done => true
  | .completeAndFetchNext, .fetched _ => true
  | .failAndFetchNext _, .fetched _ => true
  | _, _ => false

/-! ## Slots -/

/-- Where a slot waits. -/
inductive Await where
  /-- The first attempt of `activateStreamClaim`. -/
  | activating
  /-- `waitForGlobalSlot`. -/
  | holding (deadline : Int)
  | retrying (deadline : Int)
  /-- The last call about the claim. If it is guarded an error is only reported. -/
  | last (call : Call) (guarded : Bool)
  /-- The copy for the dead letter queue of a job that could not start. -/
  | copying
  | checkingTurn (job : Job)
  | checkingBudget (job : Job)
  | readingPolicy (job : Job)
  /-- The postponement of a job that is over its budget. -/
  | parking (job : Job)
  | limiting (job : Job)
  | processing (job : Job)
  /-- `finalizeMovedToFailed`. -/
  | finalizing
  | postponing (job : Job) (call : Call)
  /-- `isJobRevoked`. -/
  | confirming (job : Job) (error : Failure)
  /-- `chargeUsageToBudget` of `failAndChain`. -/
  | charging (job : Job) (error : Failure)
  /-- `planFailure`, for `failAndFetchNext` or for `failJob`. -/
  | planning (job : Job) (error : Failure) (chain : Bool)
  | failing (maxAttempts : Nat)
  | failingAndFetching (maxAttempts : Nat)
  | completing (job : Job)
  | completingAndFetching (job : Job)
  /-- What follows a call that has settled the claim: notifications, budgets, schedulers and copies
  for the dead letter queue. -/
  | following (f : Fetched) (guarded : Bool)
  deriving DecidableEq

/-- The call about the claim that the slot waits for. -/
def Await.call : Await → Option Call
  | .activating => some .moveToActive
  | .retrying _ => some .moveToActive
  | .last call _ => some call
  | .parking _ => some .moveActiveToDelayed
  | .postponing _ call => some call
  | .failing maxAttempts => some (.failJob maxAttempts false)
  | .failingAndFetching maxAttempts => some (.failAndFetchNext maxAttempts)
  | .completing _ => some .completeJob
  | .completingAndFetching _ => some .completeAndFetchNext
  | _ => none

/-- The replies that an `await` can end with. -/
def Await.accepts : Await → Reply → Bool
  | .activating, .moved _ | .retrying _, .moved _ => true
  | .holding _, .slept | .copying, .slept | .charging _ _, .slept => true
  | .last _ _, .done => true
  | .checkingTurn _, .lastDone _ => true
  | .checkingBudget _, .answer _ | .readingPolicy _, .answer _ | .confirming _ _, .answer _ => true
  | .parking _, .done | .parking _, .refused | .postponing _ _, .done | .postponing _ _, .refused => true
  | .limiting _, .limited _ => true
  | .processing _, .processed _ => true
  | .finalizing, .slept | .planning _ _ _, .slept | .following _ _, .slept => true
  | .failing _, .done | .completing _, .done | .completing _, .revoked => true
  | .failingAndFetching _, .fetched _ | .failingAndFetching _, .notFound => true
  | .completingAndFetching _, .fetched _ | .completingAndFetching _, .revoked => true
  | .holding _, _ | .copying, _ | .charging _ _, _ | .readingPolicy _, _ | .confirming _ _, _
  | .processing _, _ => false
  | _, .threw => true
  | _, _ => false

/-- A dispatched `processJob`. -/
structure Slot where
  /-- The number of its claim. -/
  claim : Nat := 0
  /-- A call about the claim has gone through that ends the worker's part in it. -/
  settled : Bool := true
  await : Option Await := none
  /-- Whether its promise was rejected. -/
  rejected : Bool := false
  deriving DecidableEq

/-- A call about a claim and what came back. -/
structure Exchange where
  claim : Nat
  call : Call
  reply : Reply
  deriving DecidableEq

/-- Where the poll loop is. -/
inductive Loop where
  /-- It was not started, or it has returned. -/
  | stopped
  /-- Between two polls. -/
  | turning
  /-- `refreshMetaFlags` of `waitIfQueuePaused`. -/
  | refreshing
  /-- A wait of 20 ms. -/
  | napping
  | waitingForSlot
  | countingSlots (available : Nat)
  /-- `tryPopFromLists`, before or after the read. -/
  | popping (afterRead : Bool) (fetchCount popCount : Nat)
  | poppingPriority (afterRead : Bool) (fetchCount popCount : Nat)
  | poppingLifo (afterRead : Bool) (fetchCount remaining : Nat) (jobIds : List String)
  | reading (fetchCount : Nat)
  /-- With a concurrency of 1: the slot that runs, and the claims that come after it. -/
  | inList (afterRead : Bool) (fetchCount slot : Nat) (rest : List Claim)
  | inStream (slot : Nat) (rest : List Claim)
  | backingOff
  /-- An attempt to reconnect: the loop's own, or one that a timer started after the loop returned. -/
  | reconnecting (byTimer : Bool)
  /-- The loop has returned, and a timer will try to reconnect. -/
  | retrying
  deriving DecidableEq

/-- How far `performClose` has come. -/
inductive Closing where
  | no
  | starting (force : Bool)
  | settling
  | draining
  | finishing
  | done
  deriving DecidableEq

/-- A worker. Dispatched slots and claims are numbered in the order in which they came. -/
structure Worker where
  concurrency : Nat
  prefetch : Nat
  /-- Whether `limiter` or `tokenLimiter` is set. -/
  limited : Bool := false
  deadLetterQueue : Bool := false
  globalFullHoldMs : Int := 15000
  commandClientOwned : Bool := true
  initialized : Bool := false
  running : Bool := false
  paused : Bool := false
  closing : Bool := false
  forceClosing : Bool := false
  closed : Bool := false
  performClose : Closing := .no
  commandClient : Bool := false
  blockingClient : Bool := false
  failAndFetchNextUnavailable : Bool := false
  globalConcurrencyEnabled : Bool := false
  globalRateLimitEnabled : Bool := false
  queuePaused : Bool := false
  listsEmptyAt : Int := 0
  suspendContinuations : List String := []
  activeCount : Int := 0
  activePromises : List Nat := []
  dispatched : Nat := 0
  slot : Nat → Slot := fun _ => {}
  taken : Nat := 0
  claim : Nat → Claim := fun _ => ⟨"", ""⟩
  log : List Exchange := []
  loop : Loop := .stopped
  /-- Whether `pollLoopPromise` is set. -/
  pollLoopPromise : Bool := false

namespace Worker

def setSlot (w : Worker) (i : Nat) (s : Slot) : Worker := { w with slot := Function.update w.slot i s }

def await (w : Worker) (i : Nat) (a : Await) : Worker := w.setSlot i { w.slot i with await := some a }

/-- The end of a slot, with what runs when its promise is settled. -/
def leave (w : Worker) (i : Nat) (rejected : Bool) : Worker :=
  { w.setSlot i { w.slot i with await := none, rejected } with
    activeCount := w.activeCount - 1
    activePromises := w.activePromises.erase i }

def record (w : Worker) (i : Nat) (call : Call) (r : Reply) : Worker :=
  let n := (w.slot i).claim
  let settled := (w.slot i).settled || settles (w.claim n) call r
  { w.setSlot i { w.slot i with settled } with log := w.log ++ [⟨n, call, r⟩] }

def claimOf (w : Worker) (i : Nat) : Claim := w.claim (w.slot i).claim

def isListClaim (w : Worker) (i : Nat) : Bool := (w.claimOf i).entryId = ""

/-! ## Handing a claim back -/

def deferPausedActivation (w : Worker) (i : Nat) (undoGroupClaim : Bool) : Worker :=
  if w.commandClient then w.await i (.last (.deferActive true undoGroupClaim) true) else w.leave i false

def deferOutOfOrderJob (w : Worker) (i : Nat) (guarded : Bool) : Worker :=
  if w.commandClient then w.await i (.last (.deferActive false false) guarded) else w.leave i false

def releaseListActiveSlot (w : Worker) (i : Nat) : Worker :=
  if w.commandClient then w.await i (.last .decrListActive true) else w.leave i false

/-- Only a claim from a list still holds its reservation. -/
def releaseIfList (w : Worker) (i : Nat) : Worker :=
  if w.isListClaim i then w.releaseListActiveSlot i else w.leave i false

/-! ## Failures -/

def handleJobFailure (w : Worker) (i : Nat) (job : Job) (error : Failure) : Worker :=
  if !w.commandClient then w.leave i false
  else if error = .rateLimit then w.await i (.last (.failJob (job.attemptsMade + 2) true) true)
  else w.await i (.planning job error false)

/-- `failAndChain`, once the budget is charged. -/
def failAndChain (w : Worker) (i : Nat) (job : Job) (error : Failure) : Worker :=
  if !w.commandClient || w.closing || w.paused || w.failAndFetchNextUnavailable || error = .rateLimit then
    w.handleJobFailure i job error
  else w.await i (.planning job error true)

/-- The call that `planFailure` was made for. -/
def failPlanned (w : Worker) (i : Nat) (maxAttempts : Nat) (chain : Bool) : Worker :=
  if chain then w.await i (.failingAndFetching maxAttempts)
  else if w.commandClient then w.await i (.failing maxAttempts)
  else w.leave i true

/-! ## From a claim to the processor -/

def forgetContinuation (w : Worker) (jobId : String) : Worker :=
  { w with suspendContinuations := w.suspendContinuations.erase jobId }

def maxSuspendContinuations : Nat := 10000

def setSuspendContinuation (w : Worker) (jobId : String) : Worker :=
  let entries := w.suspendContinuations.erase jobId ++ [jobId]
  { w with suspendContinuations := entries.drop (entries.length - maxSuspendContinuations) }

/-- A continuation runs instead of the processor, and no limiter holds it. -/
def runProcessor (w : Worker) (i : Nat) (job : Job) : Worker :=
  let jobId := (w.claimOf i).jobId
  let hasContinuation := job.signals && decide (jobId ∈ w.suspendContinuations)
  let w := w.forgetContinuation jobId
  if !hasContinuation && (w.limited || w.globalRateLimitEnabled) then w.await i (.limiting job)
  else w.await i (.processing job)

def divertIfBudgetExceeded (w : Worker) (i : Nat) (job : Job) : Worker :=
  if job.budgetKey.isSome && w.commandClient then w.await i (.checkingBudget job) else w.runProcessor i job

/-- What `processJob` does with an activated job up to its processor. -/
def startJob (w : Worker) (i : Nat) (job : Job) : Worker :=
  if job.isOrdered then
    if w.commandClient then w.await i (.checkingTurn job) else w.deferOutOfOrderJob i false
  else w.divertIfBudgetExceeded i job

def handleMoveToActiveEdgeCase (w : Worker) (i : Nat) (r : MoveResult) : Worker :=
  if !w.commandClient then w.leave i false
  else match r with
    | .gone => if w.isListClaim i then w.releaseListActiveSlot i else w.await i (.last .completeJob true)
    | .revoked => w.await i (.last (.failJob 0 false) true)
    | .paused => { w with queuePaused := true }.deferPausedActivation i false
    | .globalFull => w.deferOutOfOrderJob i true
    | .costExceedsCapacity => if w.deadLetterQueue then w.await i .copying else w.releaseIfList i
    | .hash job => w.startJob i job
    | _ => w.releaseIfList i

/-- The loop of `activateStreamClaim` after an attempt that met a full queue. -/
def holdStreamClaim (w : Worker) (i : Nat) (now deadline : Int) : Worker :=
  if w.running && w.commandClient then
    if w.closing || w.paused then w.deferPausedActivation i false
    else if deadline ≤ now then w.handleMoveToActiveEdgeCase i .globalFull
    else w.await i (.holding deadline)
  else w.handleMoveToActiveEdgeCase i .globalFull

def activateStreamClaim (w : Worker) (i : Nat) (now : Int) (r : MoveResult) : Worker :=
  if r = .globalFull ∧ ¬ w.isListClaim i then w.holdStreamClaim i now (now + w.globalFullHoldMs)
  else w.handleMoveToActiveEdgeCase i r

/-! ## From the processor to the next claim -/

/-- The next claim of the chain, while the rest of the last one's work is done. -/
def follow (w : Worker) (i : Nat) (f : Fetched) (guarded : Bool) : Worker :=
  match f.claim with
  | none => w.await i (.following f guarded)
  | some c =>
    { w.setSlot i { claim := w.taken, settled := false, await := some (.following f guarded) } with
      taken := w.taken + 1
      claim := Function.update w.claim w.taken c }

/-- The end of a round of `processJob`. -/
def chain (w : Worker) (i : Nat) (now : Int) : Fetched → Worker
  | .none listsEmpty => (if listsEmpty then { w with listsEmptyAt := now } else w).leave i false
  | .revoked next =>
    if next.jobId ≠ "" ∧ next.entryId ≠ "" ∧ w.commandClient then w.await i (.last (.failJob 0 false) true)
    else w.leave i false
  | .hash next job =>
    if (w.closing || w.paused) && decide (next.jobId ≠ "") then w.deferPausedActivation i true
    else if w.running && !w.closing && w.commandClient then w.startJob i job
    else w.leave i false

def postpone (w : Worker) (i : Nat) (job : Job) (call : Call) : Worker :=
  if w.commandClient then w.await i (.postponing job call) else w.leave i false

/-- A job that could not be postponed fails. -/
def notPostponed (w : Worker) (i : Nat) (job : Job) (call : Call) : Worker :=
  let w := if call = .suspendJob then w.forgetContinuation (w.claimOf i).jobId else w
  w.handleJobFailure i job .other

def succeed (w : Worker) (i : Nat) (job : Job) (returned : Returned) : Worker :=
  if !w.commandClient then w.leave i false
  else if returned ≠ .value then w.handleJobFailure i job .other
  else if w.closing || w.paused then w.await i (.completing job)
  else w.await i (.completingAndFetching job)

/-- What `processJob` does when the processor is done. -/
def afterProcessor (w : Worker) (i : Nat) (job : Job) (o : Processed) : Worker :=
  let job := { job with discarded := job.discarded || o.discarded }
  if o.movedToFailed then (w.record i .moveToFailed .done).await i .finalizing
  else if o.error = some .delayed then w.postpone i job .moveActiveToDelayed
  else if o.error = some .groupRateLimit then w.postpone i job .rateLimitGroup
  else if o.error = some .waitingChildren || o.waitingChildrenRequest then w.postpone i job .moveToWaitingChildren
  else if o.error = some .suspend || o.suspendRequest.isSome then
    let w := if w.commandClient && o.suspendRequest = some true then
      w.setSuspendContinuation (w.claimOf i).jobId else w
    w.postpone i job .suspendJob
  else if o.error.isSome || o.aborted then
    let error := o.error.getD .other
    if o.aborted && w.forceClosing then w.leave i false
    else if o.aborted && w.commandClient then w.await i (.confirming job error)
    else w.await i (.charging job error)
  else w.succeed i job o.returned

/-! ## A step of a slot -/

/-- What follows an `await`. -/
def next (w : Worker) (i : Nat) (now : Int) : Await → Reply → Worker
  | .activating, .moved r => w.activateStreamClaim i now r
  | .holding deadline, _ =>
    if w.closing || w.paused then w.deferPausedActivation i false else w.await i (.retrying deadline)
  | .retrying deadline, .moved r =>
    if r = .globalFull then w.holdStreamClaim i now deadline else w.handleMoveToActiveEdgeCase i r
  | .last _ guarded, r => w.leave i (r = .threw && !guarded)
  | .copying, _ => w.releaseIfList i
  | .checkingTurn job, .lastDone n =>
    if job.orderingSeq ≤ n + 1 then w.divertIfBudgetExceeded i job else w.deferOutOfOrderJob i false
  | .checkingBudget job, .answer exceeded =>
    if !exceeded then w.runProcessor i job
    else if w.commandClient then w.await i (.readingPolicy job)
    else w.handleJobFailure i job .other
  | .readingPolicy job, .answer pause =>
    if pause && w.commandClient then w.await i (.parking job) else w.handleJobFailure i job .other
  | .parking job, .threw => w.handleJobFailure i job .other
  | .parking _, _ => w.leave i false
  | .limiting job, .limited aborted =>
    if aborted then w.afterProcessor i job { aborted := true }
    else if w.closing then w.deferPausedActivation i true
    else w.await i (.processing job)
  | .processing job, .processed o => w.afterProcessor i job o
  | .postponing _ _, .done => w.leave i false
  | .postponing job call, _ => w.notPostponed i job call
  | .confirming job error, .answer revoked => w.await i (.charging job (if revoked then .unrecoverable else error))
  | .charging job error, _ => w.failAndChain i job error
  | .planning job error chain, .slept => w.failPlanned i (job.maxAttempts error) chain
  | .failing _, .done => w.follow i (.none false) false
  | .failingAndFetching _, .fetched f => w.follow i f true
  | .failingAndFetching maxAttempts, .notFound =>
    { w with failAndFetchNextUnavailable := true }.await i (.failing maxAttempts)
  | .completing _, .done => w.follow i (.none false) false
  | .completing job, .revoked => w.handleJobFailure i job .unrecoverable
  | .completingAndFetching _, .fetched f => w.follow i f false
  | .completingAndFetching job, .revoked => w.handleJobFailure i job .unrecoverable
  | .following f guarded, r => if r = .threw && !guarded then w.leave i true else w.chain i now f
  | .finalizing, r => w.leave i (r = .threw)
  | _, _ => w.leave i true

/-- The reply that slot `i` waits for. -/
def resume (w : Worker) (i : Nat) (now : Int) (r : Reply) : Worker :=
  match (w.slot i).await with
  | none => w
  | some a =>
    if a.accepts r then
      (match a.call with
        | some call => w.record i call r
        | none => w).next i now a r
    else w

/-! ## Dispatch -/

def processJob (w : Worker) (i : Nat) : Worker :=
  if !w.commandClient then w.leave i false
  else if w.closing || w.paused then w.deferPausedActivation i false
  else if w.running then w.await i .activating
  else w.leave i false

/-- A new slot, before `processJob` has come to its first wait. -/
def enter (w : Worker) (c : Claim) : Worker :=
  { w with
    activeCount := w.activeCount + 1
    activePromises := w.activePromises ++ [w.dispatched]
    dispatched := w.dispatched + 1
    taken := w.taken + 1
    claim := Function.update w.claim w.taken c
    slot := Function.update w.slot w.dispatched { claim := w.taken, settled := false, await := some .activating } }

def dispatchJob (w : Worker) (c : Claim) : Worker := (w.enter c).processJob w.dispatched

end Worker

end GlideMq.BaseWorker
