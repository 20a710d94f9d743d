import GlideMq.Machine.Runs
import GlideMq.Model.Worker

/-!
# The poll loop of a worker

The loop of `worker.ts` and `base-worker.ts` claims jobs and dispatches them, and `pause`, `resume`,
`close` and a lost connection steer it. An event is the end of something that the worker waits for, or
a call by the application.
-/

namespace GlideMq.BaseWorker

/-- How a wait of the poll loop ends. -/
inductive Polled where
  | threw
  | woke
  /-- `refreshMetaFlags`: the flags, if they could be read. -/
  | flags (values : Option (Bool × Bool × Bool))
  /-- The free slots of the queue, negative without a limit. -/
  | slots (n : Int)
  | jobIds (ids : List String)
  /-- The read timed out. -/
  | nothing
  /-- Stream entries with the job that they name. A deleted entry names none. -/
  | entries (es : List (String × Option String))
  | reconnected
  /-- Which clients a failed attempt leaves open. -/
  | notReconnected (commandClient blockingClient : Bool)
  deriving DecidableEq

namespace Worker

/-- A worker that was just made. -/
def new (concurrency : Nat) (prefetch : Option Nat) (limited deadLetterQueue commandClientOwned : Bool) : Worker :=
  { concurrency, prefetch := min (prefetch.getD concurrency) concurrency, limited, deadLetterQueue,
    commandClientOwned }

def goTo (w : Worker) (l : Loop) : Worker := { w with loop := l }

/-! ## One poll -/

/-- `!running` ends the loop too, but only once `closing` is set. -/
def isPolling (w : Worker) : Bool := w.running && !w.paused && !w.closing

def refreshMetaFlags (w : Worker) : Option (Bool × Bool × Bool) → Worker
  | none => w
  | some (globalConcurrencyEnabled, globalRateLimitEnabled, queuePaused) =>
    { w with globalConcurrencyEnabled, globalRateLimitEnabled, queuePaused }

def dispatchAll (w : Worker) (claims : List Claim) : Worker := claims.foldl dispatchJob w

/-- With a concurrency of 1 the loop waits for each job. -/
def dispatchFromList (w : Worker) (afterRead : Bool) (fetchCount : Nat) : List Claim → Worker
  | [] => w.goTo .turning
  | c :: rest =>
    if w.concurrency = 1 then (w.dispatchJob c).goTo (.inList afterRead fetchCount w.dispatched rest)
    else (w.dispatchAll (c :: rest)).goTo .turning

def dispatchFromStream (w : Worker) : List Claim → Worker
  | [] => w.goTo .turning
  | c :: rest =>
    if w.concurrency = 1 then (w.dispatchJob c).goTo (.inStream w.dispatched rest)
    else (w.dispatchAll (c :: rest)).goTo .turning

/-- `pollOnce` after lists that gave nothing. -/
def noneInLists (w : Worker) (afterRead : Bool) (fetchCount : Nat) : Worker :=
  if afterRead || w.paused || w.closing || w.queuePaused then w.goTo .turning else w.goTo (.reading fetchCount)

def tryPopFromLists (w : Worker) (afterRead : Bool) (fetchCount : Nat) : Worker :=
  if !w.commandClient then w.noneInLists afterRead fetchCount
  else
    let popCount := if w.concurrency = 1 then 1 else fetchCount
    if w.globalConcurrencyEnabled then w.goTo (.poppingPriority afterRead fetchCount popCount)
    else w.goTo (.popping afterRead fetchCount popCount)

def dispatchPopped (w : Worker) (afterRead : Bool) (fetchCount : Nat) (jobIds : List String) : Worker :=
  if jobIds = [] then w.noneInLists afterRead fetchCount
  else w.dispatchFromList afterRead fetchCount (jobIds.map fun jobId => ⟨jobId, ""⟩)

def listsEmptyFreshMs : Int := 100

/-- `pollOnce` from the check of the lists on. -/
def pollLists (w : Worker) (now : Int) (fetchCount : Nat) : Worker :=
  if w.paused || w.closing || w.queuePaused then w.goTo .turning
  else
    let listsFresh := decide (now - w.listsEmptyAt < listsEmptyFreshMs)
    let w := { w with listsEmptyAt := 0 }
    if listsFresh then w.goTo (.reading fetchCount) else w.tryPopFromLists false fetchCount

/-- `pollOnce` from the count of the free slots on. -/
def pollSlots (w : Worker) (now : Int) : Worker :=
  if w.paused || w.closing then w.goTo .turning
  else
    let available := (w.prefetch : Int) - w.activeCount
    if available ≤ 0 then w.goTo .waitingForSlot
    else if w.globalConcurrencyEnabled then w.goTo (.countingSlots available.toNat)
    else w.pollLists now available.toNat

def pollOnce (w : Worker) (now : Int) : Worker :=
  if !w.blockingClient || !w.commandClient || w.paused || w.closing then w.goTo .turning
  else if w.queuePaused then w.goTo .refreshing
  else w.pollSlots now

/-- The claims of a read. An entry that names no job is passed over. -/
def claimsOf (es : List (String × Option String)) : List Claim :=
  es.filterMap fun e => (e.2.filter (· ≠ "")).map fun jobId => ⟨jobId, e.1⟩

/-! ## The loop -/

/-- The start of `pollLoop`, with the assignment of its promise. -/
def startLoop (w : Worker) (now : Int) : Worker :=
  { if w.isPolling then w.pollOnce now else w.goTo .stopped with pollLoopPromise := true }

/-- The test of the loop after a poll. -/
def turnLoop (w : Worker) (now : Int) : Worker :=
  if w.isPolling then w.pollOnce now
  else { w.goTo .stopped with pollLoopPromise := w.pollLoopPromise && !(w.paused && !w.closing) }

def pollFailed (w : Worker) : Worker :=
  if w.running && !w.closing then w.goTo .backingOff else w.goTo .turning

/-- An attempt drops the clients first. A command client that a running job needs is kept. -/
def reconnect (w : Worker) (byTimer : Bool) : Worker :=
  if w.running && !w.closing then
    { w.goTo (.reconnecting byTimer) with
      blockingClient := false
      commandClient := w.commandClient && !(w.commandClientOwned && w.activePromises.isEmpty) }
  else w.goTo .stopped

/-- The loop goes on when the job that it waits for has left its slot. -/
def turn (w : Worker) (now : Int) : Worker :=
  match w.loop with
  | .turning => w.turnLoop now
  | .inList afterRead fetchCount i rest =>
    if (w.slot i).await.isSome then w
    else if (w.slot i).rejected then w.noneInLists afterRead fetchCount
    else w.dispatchFromList afterRead fetchCount rest
  | .inStream i rest =>
    if (w.slot i).await.isSome then w
    else if (w.slot i).rejected then w.pollFailed
    else w.dispatchFromStream rest
  | _ => w

/-- `performClose` is past `closeBlockingClient`. -/
def blockingClosed (w : Worker) : Bool :=
  w.performClose = .draining || w.performClose = .finishing || w.performClose = .done

/-- The server returns no more than it was asked for. -/
def polled (w : Worker) (now : Int) (r : Polled) : Worker :=
  match w.loop, r with
  | .refreshing, .flags values =>
    let w := w.refreshMetaFlags values
    if w.queuePaused then w.goTo .napping else w.pollSlots now
  | .napping, .woke | .waitingForSlot, .woke => w.goTo .turning
  | .countingSlots available, .slots n =>
    if n = 0 then w.goTo .napping
    else w.pollLists now (if 0 < n then min available n.toNat else available)
  | .countingSlots _, .threw => w.pollFailed
  | .popping afterRead fetchCount popCount, .jobIds ids =>
    if ids.length ≤ popCount then w.dispatchPopped afterRead fetchCount ids else w
  | .popping afterRead fetchCount _, .threw => w.noneInLists afterRead fetchCount
  | .poppingPriority afterRead fetchCount popCount, .jobIds ids =>
    if popCount < ids.length then w
    else if ids.length = popCount then w.dispatchPopped afterRead fetchCount ids
    else w.goTo (.poppingLifo afterRead fetchCount (popCount - ids.length) ids)
  | .poppingPriority afterRead fetchCount popCount, .threw => w.goTo (.poppingLifo afterRead fetchCount popCount [])
  | .poppingLifo afterRead fetchCount remaining jobIds, .jobIds ids =>
    if ids.length ≤ remaining then w.dispatchPopped afterRead fetchCount (jobIds ++ ids) else w
  | .poppingLifo afterRead fetchCount _ jobIds, .threw => w.dispatchPopped afterRead fetchCount jobIds
  | .reading fetchCount, .nothing =>
    if w.commandClient && !w.paused && !w.closing && !w.queuePaused then w.tryPopFromLists true fetchCount
    else w.goTo .turning
  | .reading fetchCount, .entries es => if es.length ≤ fetchCount then w.dispatchFromStream (claimsOf es) else w
  | .reading _, .threw => w.pollFailed
  | .backingOff, .woke => w.reconnect false
  | .retrying, .woke => w.reconnect true
  | .reconnecting _, .reconnected =>
    if w.closing then w else { w with commandClient := true, blockingClient := true }.startLoop now
  | .reconnecting _, .notReconnected commandClient blockingClient =>
    if w.running && !w.closing then { w with commandClient, blockingClient }.goTo .retrying
    else
      -- what `performClose` has closed stays closed
      { w with
        commandClient := commandClient && !w.closed
        blockingClient := blockingClient && !w.blockingClosed }.goTo .stopped
  | _, _ => w

/-! ## The application -/

/-- The end of `init`. -/
def init (w : Worker) (now : Int) (values : Option (Bool × Bool × Bool)) : Worker :=
  if w.initialized then w
  else
    { w.refreshMetaFlags values with
      initialized := true, commandClient := true, blockingClient := true, running := true }.startLoop now

def pause (w : Worker) : Worker := { w with paused := true }

/-- `resume` after its wait for the end of `init`. -/
def resumePolling (w : Worker) (now : Int) : Worker :=
  if !w.initialized then w
  else
    let w := { w with paused := false }
    if w.pollLoopPromise then w else w.startLoop now

def close (w : Worker) (force : Bool) : Worker :=
  if w.closed then w
  else
    let w := { w with forceClosing := w.forceClosing || force }
    if w.performClose ≠ .no then w
    else { w with closing := true, running := false, performClose := .starting force }

/-- What `settlePollLoop` waits for: an attempt of a timer is not part of the loop's promise. -/
def loopEnded (w : Worker) : Bool :=
  !w.pollLoopPromise || w.loop = .stopped || w.loop = .retrying || w.loop = .reconnecting true

/-- One step of `performClose`. -/
def stepClose (w : Worker) (graceExpired : Bool) : Worker :=
  match w.performClose with
  | .starting force =>
    if !w.initialized then w
    else
      let w := if w.loop = .retrying then w.goTo .stopped else w
      if force then { w with blockingClient := false, performClose := .finishing }
      else { w with performClose := .settling }
  | .settling => if w.loopEnded || graceExpired then { w with blockingClient := false, performClose := .draining } else w
  | .draining => if w.activePromises = [] then { w with performClose := .finishing } else w
  | .finishing =>
    { w with commandClient := false, pollLoopPromise := false, closed := true, performClose := .done }
  | _ => w

inductive Event where
  | initialized (now : Int) (flags : Option (Bool × Bool × Bool))
  | slot (i : Nat) (now : Int) (r : Reply)
  | polled (now : Int) (r : Polled)
  /-- A microtask of the poll loop. -/
  | turn (now : Int)
  /-- A tick of the scheduler. -/
  | tick (flags : Option (Bool × Bool × Bool))
  | pause
  | resume (now : Int)
  | close (force : Bool)
  | closing (graceExpired : Bool)
  deriving DecidableEq

def step (w : Worker) : Event → Worker
  | .initialized now flags => w.init now flags
  | .slot i now r => w.resume i now r
  | .polled now r => w.polled now r
  | .turn now => w.turn now
  | .tick flags => w.refreshMetaFlags flags
  | .pause => w.pause
  | .resume now => w.resumePolling now
  | .close force => w.close force
  | .closing graceExpired => w.stepClose graceExpired

end Worker

end GlideMq.BaseWorker
