import GlideMq.Machine.Runs
import GlideMq.Model.UsageReport

/-!
# The sandbox pool

`SandboxPool` of `sandbox/pool.ts` runs processors in worker threads or child processes. An event is
a call by the worker, a signal, a timer, a message or the end of a thread. What `await` postpones
runs in the order in which its promises were settled, and before the next message, timer or end of a
thread is seen. Calls of `run` and threads are numbered in the order in which they were made.
-/

namespace GlideMq.Sandbox

open UsageReport (JSNumber)
open EntryText (Double)

section

variable {V : Type}

/-! ## What passes between the threads -/

/-- The data of a job: a plain object or any other value. -/
inductive Data (V : Type) where
  | object (fields : List (String × V))
  | other (value : V)

/-- `{ ...data, step }`. -/
def withStep (fields : List (String × V)) (step : V) : Data V :=
  .object (if fields.any (·.1 = "step") then fields.map fun f => if f.1 = "step" then (f.1, step) else f
    else fields ++ [("step", step)])

/-- A method of the job that the processor asks for. -/
inductive Method (V : Type) where
  | log (message : V)
  | updateProgress (progress : V)
  | updateData (data : Data V)
  | discard
  | moveToDelayed (timestamp : JSNumber) (nextStep : Option V)
  | unknown (name : String)

def Method.name : Method V → String
  | .log _ => "log"
  | .updateProgress _ => "updateProgress"
  | .updateData _ => "updateData"
  | .discard => "discard"
  | .moveToDelayed .. => "moveToDelayed"
  | .unknown name => name

inductive MainToChild (V : Type) where
  | process (id : String) (job : Data V)
  | abort (id : String)
  | proxyResponse (id : String) (error : Option String)

inductive ChildToMain (V : Type) where
  | completed (id : String) (result : V)
  | failed (id error : String) (stack errorName : Option String) (discarded : Bool) (delayedUntil : Option JSNumber)
  | proxyRequest (id : String) (method : Method V)

/-! ## Errors -/

inductive ErrorKind where
  | error
  | glideMQ
  | unrecoverable
  | delayed (delayedUntil : Double)

structure JSError where
  kind : ErrorKind
  message : String
  stack : Option String := none

def glideMQError (message : String) : JSError := { kind := .glideMQ, message }

def closedError : JSError := glideMQError "SandboxPool is closed"

def abortedError : JSError := glideMQError "Job aborted"

def graceError (abortGraceMs : Nat) : JSError :=
  glideMQError ("Sandbox worker terminated: job did not settle within " ++ toString abortGraceMs ++ "ms of abort")

def exitError (code : Option Int) : JSError :=
  glideMQError ("Sandbox worker exited with code " ++ (match code with | some n => toString n | none => "null"))

/-- A finite time that is not negative. -/
def validTime : JSNumber → Option Double
  | .finite x => if 0 ≤ x.val then some x else none
  | _ => none

/-- The error that a failed processor is reported with. -/
def failedError (error : String) (stack errorName : Option String) (delayedUntil : Option JSNumber) : JSError :=
  let kind :=
    if errorName = some "UnrecoverableError" then .unrecoverable
    else if errorName = some "DelayedError" then
      match delayedUntil.bind validTime with
      | some time => .delayed time
      | none => .error
    else .error
  { kind, message := error, stack := stack.filter (· ≠ "") }

/-! ## The state -/

/-- What the pool calls on a job. The first three end later. -/
inductive JobCall (V : Type) where
  | log (message : V)
  | updateProgress (progress : V)
  | updateData (data : Data V)
  | discard
  | requestMoveToDelayed (delayedUntil : Int) (nextData : Option (Data V))

structure Job (V : Type) where
  /-- Whether the signal has fired, where the job has one. -/
  abortSignal : Option Bool := none
  entryId : Option String := none
  data : Data V
  discarded : Bool := false
  /-- What was called on the job, the oldest call first. -/
  calls : List (JobCall V) := []

def Job.aborted (job : Job V) : Bool := job.abortSignal = some true

inductive Outcome (V : Type) where
  | resolved (result : V)
  | rejected (error : JSError)

/-- How far a call of `run` has come. -/
inductive Phase where
  | waiting
  /-- It was given a worker and goes on when the microtasks run. -/
  | acquired (w : Nat)
  | running (w : Nat)
  | settled
  deriving DecidableEq

structure Run (V : Type) where
  job : Job V
  phase : Phase := .waiting
  invocationId : String := ""
  graceTimer : Bool := false
  cleaned : Bool := false
  /-- What its promise was resolved or rejected with, each time. -/
  outcomes : List (Outcome V) := []

structure PoolWorker where
  busy : Bool := false
  terminationError : Option JSError := none
  /-- The call whose `reject` is kept. -/
  currentReject : Option Nat := none
  /-- The call whose `cleanup` is kept. -/
  currentCleanup : Option Nat := none
  /-- The calls that listen to its messages. -/
  listeners : List Nat := []
  /-- Whether its end was seen. -/
  cleaned : Bool := false

/-- A call on a job that has not ended. -/
structure Proxy (V : Type) where
  worker : Nat
  run : Nat
  id : String
  call : JobCall V

structure Pool (V : Type) where
  maxWorkers : Nat
  abortGraceMs : Nat
  workers : List Nat := []
  waiters : List Nat := []
  closed : Bool := false
  /-- Shared by all pools of the process. -/
  nextInvocationId : Nat := 0
  worker : Nat → PoolWorker := fun _ => {}
  spawned : Nat := 0
  run : Nat → Run V
  runs : Nat := 0
  /-- The calls that go on after `await`. -/
  microtasks : List Nat := []
  proxies : List (Proxy V) := []
  /-- The messages to the threads, the oldest first. -/
  sent : List (Nat × MainToChild V) := []

namespace Pool

variable (p : Pool V)

def modifyWorker (w : Nat) (f : PoolWorker → PoolWorker) : Pool V :=
  { p with worker := Function.update p.worker w (f (p.worker w)) }

def modifyRun (r : Nat) (f : Run V → Run V) : Pool V :=
  { p with run := Function.update p.run r (f (p.run r)) }

def modifyJob (r : Nat) (f : Job V → Job V) : Pool V :=
  p.modifyRun r fun x => { x with job := f x.job }

def send (w : Nat) (message : MainToChild V) : Pool V := { p with sent := p.sent ++ [(w, message)] }

def settle (r : Nat) (outcome : Outcome V) : Pool V :=
  p.modifyRun r fun x => { x with phase := .settled, outcomes := x.outcomes ++ [outcome] }

def reject (r : Nat) (error : JSError) : Pool V := p.settle r (.rejected error)

/-! ## Workers and waiters -/

/-- A new thread, which is the last one spawned. -/
def spawn : Pool V :=
  { p with
    worker := Function.update p.worker p.spawned {}
    spawned := p.spawned + 1
    workers := p.workers ++ [p.spawned] }

/-- `resolve` of the promise of `acquire`, with a worker that is made busy. -/
def grant (r : Nat) (w : Nat) : Pool V :=
  let p := p.modifyWorker w fun pw => { pw with busy := true }
  let p := p.modifyRun r fun x => { x with phase := .acquired w }
  { p with microtasks := p.microtasks ++ [r] }

def acquire (r : Nat) : Pool V :=
  match p.workers.find? fun w => !(p.worker w).busy with
  | some idle => p.grant r idle
  | none =>
    if p.workers.length < p.maxWorkers then p.spawn.grant r p.spawned
    else { p with waiters := p.waiters ++ [r] }

def terminate (w : Nat) (reason : JSError) : Pool V :=
  p.modifyWorker w fun pw => { pw with terminationError := some reason }

/-- A worker that is being terminated stays busy. -/
def release (w : Nat) : Pool V :=
  let p := p.modifyWorker w fun pw => { pw with currentReject := none }
  if (p.worker w).terminationError.isSome then p
  else
    let p := p.modifyWorker w fun pw => { pw with busy := false }
    match p.waiters with
    | [] => p
    | r :: rest => { p with waiters := rest }.grant r w

def cleanup (r : Nat) (w : Nat) : Pool V :=
  if (p.run r).cleaned then p
  else
    let p := p.modifyRun r fun x => { x with cleaned := true, graceTimer := false }
    p.modifyWorker w fun pw => { pw with currentCleanup := none, listeners := pw.listeners.erase r }

/-- The next waiter gets a fresh worker, if the pool is not closing. -/
def wakeWaiter : Pool V :=
  if p.closed then p
  else
    match p.waiters with
    | [] => p
    | r :: rest => { p.spawn with waiters := rest }.grant r p.spawned

def callCurrentCleanup (w : Nat) : Pool V :=
  match (p.worker w).currentCleanup with
  | some r => p.cleanup r w
  | none => p

/-- A worker that the pool terminated rejects with the reason for it. -/
def callCurrentReject (w : Nat) (error : JSError) : Pool V :=
  match (p.worker w).currentReject with
  | some r =>
    (p.reject r ((p.worker w).terminationError.getD error)).modifyWorker w
      fun pw => { pw with currentReject := none }
  | none => p

/-- The end of a thread, seen once. -/
def removeAndCleanup (w : Nat) (error : JSError) : Pool V :=
  if (p.worker w).cleaned then p
  else
    let p := p.modifyWorker w fun pw => { pw with cleaned := true }
    let p := { p with workers := p.workers.erase w }
    let p := p.callCurrentCleanup w
    let p := p.callCurrentReject w error
    p.wakeWaiter

/-! ## A call of `run` -/

def abortHandler (r : Nat) (w : Nat) : Pool V :=
  (p.send w (.abort (p.run r).invocationId)).modifyRun r fun x => { x with graceTimer := true }

/-- Up to the first `await`. -/
def startRun (job : Job V) : Pool V :=
  let r := p.runs
  let p := { p with runs := p.runs + 1, run := Function.update p.run r { job } }
  if p.closed then p.reject r closedError
  else if job.aborted then p.reject r abortedError
  else p.acquire r

/-- The message that starts the processor. -/
def process (r : Nat) (w : Nat) : Pool V :=
  let id := toString (p.nextInvocationId + 1)
  let p := { p with nextInvocationId := p.nextInvocationId + 1 }
  let p := p.modifyRun r fun x => { x with phase := .running w, invocationId := id }
  let p := p.modifyWorker w fun pw =>
    { pw with currentReject := some r, currentCleanup := some r, listeners := pw.listeners ++ [r] }
  let p := p.send w (.process id (p.run r).job.data)
  if (p.run r).job.aborted then p.abortHandler r w else p

/-- After `await this.acquire(signal)`. -/
def resumeRun (r : Nat) : Pool V :=
  match (p.run r).phase with
  | .acquired w => if (p.run r).job.aborted then (p.release w).reject r abortedError else p.process r w
  | _ => p

def resume : Pool V :=
  match p.microtasks with
  | [] => p
  | r :: rest => { p with microtasks := rest }.resumeRun r

/-- The signal of the job fires. Whoever waits leaves the queue, a running processor is told. -/
def abort (r : Nat) : Pool V :=
  if (p.run r).job.abortSignal = some false then
    let p := p.modifyJob r fun job => { job with abortSignal := some true }
    match (p.run r).phase with
    | .waiting => { p with waiters := p.waiters.erase r }.reject r abortedError
    | .running w => p.abortHandler r w
    | _ => p
  else p

def graceExpired (r : Nat) : Pool V :=
  if (p.run r).graceTimer then
    let p := p.modifyRun r fun x => { x with graceTimer := false }
    match (p.run r).phase with
    | .running w => if (p.run r).cleaned then p else p.terminate w (graceError p.abortGraceMs)
    | _ => p
  else p

/-! ## Messages -/

/-- A call on the job that answers later. -/
def startCall (w : Nat) (r : Nat) (id : String) (call : JobCall V) : Pool V :=
  let p := p.modifyJob r fun job => { job with calls := job.calls ++ [call] }
  { p with proxies := p.proxies ++ [{ worker := w, run := r, id, call }] }

def requestMoveToDelayed (r : Nat) (timestamp : Double) (nextData : Option (Data V)) : Pool V :=
  p.modifyJob r fun job =>
    { job with
      data := nextData.getD job.data
      calls := job.calls ++ [.requestMoveToDelayed ⌊timestamp.val⌋ nextData] }

def handleProxyRequest (w : Nat) (r : Nat) (id : String) (method : Method V) : Pool V :=
  let job := (p.run r).job
  if job.aborted ∧ method.name ≠ "log" ∧ method.name ≠ "discard" then
    p.send w (.proxyResponse id (some ("Job aborted: " ++ method.name ++
      "() is not allowed after the job's abort signal fired")))
  else
    match method with
    | .log message => p.startCall w r id (.log message)
    | .updateProgress progress => p.startCall w r id (.updateProgress progress)
    | .updateData data => p.startCall w r id (.updateData data)
    | .discard =>
      (p.modifyJob r fun job => { job with discarded := true, calls := job.calls ++ [.discard] }).send w
        (.proxyResponse id none)
    | .moveToDelayed timestamp nextStep =>
      match validTime timestamp with
      | none => p.send w (.proxyResponse id (some "Timestamp must be a finite Unix millisecond value >= 0"))
      | some t =>
        if job.entryId.isNone then
          p.send w (.proxyResponse id
            (some "moveToDelayed() can only be used while the job is active in a Worker"))
        else
          match nextStep, job.data with
          | none, _ => (p.requestMoveToDelayed r t none).send w (.proxyResponse id none)
          | some step, .object fields =>
            (p.requestMoveToDelayed r t (some (withStep fields step))).send w (.proxyResponse id none)
          | some _, .other _ =>
            p.send w (.proxyResponse id (some "moveToDelayed(nextStep) requires plain-object job data"))
    | .unknown name => p.send w (.proxyResponse id (some ("Unknown proxy method: " ++ name)))

/-- The end of a call on a job. -/
def endCall (i : Nat) (error : Option String) : Pool V :=
  match p.proxies[i]? with
  | none => p
  | some proxy =>
    let p := { p with proxies := p.proxies.eraseIdx i }
    let p :=
      match error, proxy.call with
      | none, .updateData data => p.modifyJob proxy.run fun job => { job with data }
      | _, _ => p
    p.send proxy.worker (.proxyResponse proxy.id error)

/-- The listener of one invocation. -/
def onMessage (w : Nat) (message : ChildToMain V) (r : Nat) : Pool V :=
  let invocationId := (p.run r).invocationId
  match message with
  | .completed id result =>
    if id = invocationId then ((p.cleanup r w).release w).settle r (.resolved result) else p
  | .failed id error stack errorName discarded delayedUntil =>
    if id = invocationId then
      let p := (p.cleanup r w).release w
      let p := if discarded then p.modifyJob r fun job => { job with discarded := true } else p
      p.reject r (failedError error stack errorName delayedUntil)
    else p
  | .proxyRequest id method =>
    if (invocationId ++ ":").toList <+: id.toList then p.handleProxyRequest w r id method else p

def message (w : Nat) (m : ChildToMain V) : Pool V :=
  (p.worker w).listeners.foldl (fun p r => p.onMessage w m r) p

/-! ## The end of the pool -/

def close : Pool V :=
  if p.closed then p
  else
    let p := p.waiters.foldl (fun p r => p.reject r closedError) { p with closed := true }
    { p with waiters := [] }

/-- All threads ended, or the time for it is over. -/
def terminated : Pool V := if p.closed then { p with workers := [] } else p

end Pool

/-! ## Events -/

inductive Event (V : Type) where
  | run (job : Job V)
  | resume
  | abort (r : Nat)
  | endCall (i : Nat) (error : Option String)
  /-- Another pool takes an invocation id. -/
  | otherInvocation
  | close
  | terminated
  | graceExpired (r : Nat)
  | message (w : Nat) (m : ChildToMain V)
  | exit (w : Nat) (code : Option Int)
  | error (w : Nat) (error : JSError)

/-- The event loop shows these only after all microtasks have run. -/
def Event.isMacrotask : Event V → Bool
  | .graceExpired _ | .message .. | .exit .. | .error .. => true
  | _ => false

namespace Pool

variable (p : Pool V)

def handle : Event V → Pool V
  | .run job => p.startRun job
  | .resume => p.resume
  | .abort r => p.abort r
  | .endCall i error => p.endCall i error
  | .otherInvocation => { p with nextInvocationId := p.nextInvocationId + 1 }
  | .close => p.close
  | .terminated => p.terminated
  | .graceExpired r => p.graceExpired r
  | .message w m => p.message w m
  | .exit w code => if w < p.spawned then p.removeAndCleanup w (exitError code) else p
  | .error w error => if w < p.spawned then p.removeAndCleanup w error else p

def step (e : Event V) : Pool V := if e.isMacrotask ∧ p.microtasks ≠ [] then p else p.handle e

/-- The constructor. -/
def new (maxWorkers abortGraceMs nextInvocationId : Nat) (data : Data V) : Pool V :=
  { maxWorkers, abortGraceMs, nextInvocationId, run := fun _ => { job := { data } } }

end Pool

end

end GlideMq.Sandbox
