import Mathlib.Data.Prod.Lex
import Mathlib.Data.String.Basic
import GlideMq.Redis.Stream
import GlideMq.Redis.SortedSet
import GlideMq.Model.State

/-!
# Broadcast

A queue in broadcast mode: every message is an entry of the stream, and every subscription is a
consumer group that reads all of them. Nothing deletes an entry but `glidemq_trimBroadcast`. The
data of a message goes with its last entry, unless some subscription still needs it.
-/

namespace GlideMq

open Redis

/-- An entry with the field `retryGroup` is for one subscription only. -/
abbrev BroadcastEntry := JobEntry

/-- What trimming reads of the hash `job:<id>`. -/
structure Message where
  state : Option JobState := none
  /-- `bcastHeld`, the trimmed entries that are still pending. -/
  bcastHeld : Int := 0
  /-- `bcastEntry`, the newest entry of a retry. -/
  bcastEntry : Option Nat := none
  deriving DecidableEq

/-- A member `entryId|jobId` of the set `bcast-held`. -/
structure HeldClaim where
  entryId : Nat
  jobId : JobId
  deriving DecidableEq

instance : LinearOrder HeldClaim :=
  LinearOrder.lift' (fun h => toLex (h.entryId, h.jobId)) fun a b h => by
    cases a
    cases b
    simpa using h

structure Broadcast where
  stream : Stream BroadcastEntry := ∅
  /-- The groups of `XINFO GROUPS`. -/
  groups : List Group := []
  jobs : JobId → Option Message := fun _ => none
  /-- The field `a` of `job:<id>:sub:<group>`. -/
  attempts : JobId → Group → Int := fun _ _ => 0
  held : SortedSet HeldClaim := ∅
  /-- The members `jobId` and `jobId||group` with the time they are due. -/
  scheduled : JobId → Option Group → Option Int := fun _ _ => none
  completed : JobId → Option Int := fun _ => none
  failed : JobId → Option Int := fun _ => none

namespace Broadcast

def setJob (b : Broadcast) (jobId : JobId) (m : Option Message) : Broadcast :=
  { b with jobs := Function.update b.jobs jobId m }

def setHeld (b : Broadcast) (held : SortedSet HeldClaim) : Broadcast := { b with held := held }

end Broadcast

/-! ## Trimming -/

def entryPendingInAnyGroup (b : Broadcast) (entryId : Nat) : Bool :=
  b.groups.any fun g => b.stream.isPending g entryId

/-- `TRIM_KEEP_STATES`. -/
def trimKeepStates : JobState → Bool
  | .delayed | .groupWaiting | .suspended | .waitingChildren => true
  | _ => false

def legacyRetryIndex (b : Broadcast) (jobId : JobId) : Option Nat :=
  ((b.stream.entries.take 1000).find? fun e => e.val.retryGroup.isSome && e.val.jobId = jobId).map (·.id)

def findLegacyRetryEntry (b : Broadcast) (jobId : JobId) : Option Nat :=
  if b.groups.any fun g => 0 < b.attempts jobId g then legacyRetryIndex b jobId else none

/-- A retry of the message is due in some subscription, or the message itself is. -/
def isScheduled (b : Broadcast) (jobId : JobId) : Bool :=
  (b.scheduled jobId none).isSome || b.groups.any fun g => (b.scheduled jobId (some g)).isSome

def deleteTrimmedBroadcastJob (b : Broadcast) (jobId : JobId) : Broadcast :=
  match b.jobs jobId with
  | none => b
  | some m =>
    if m.state = none ∨ m.state.any trimKeepStates then b
    else if 0 < m.bcastHeld then b
    else if m.bcastEntry.any fun id => b.stream.entries.any (·.id = id) then b
    else
      match if m.bcastEntry = none then findLegacyRetryEntry b jobId else none with
      | some legacyRetry => b.setJob jobId (some { m with bcastEntry := some legacyRetry })
      | none =>
        if isScheduled b jobId then b
        else
          { b.setJob jobId none with
            attempts := Function.update b.attempts jobId
              fun g => if g ∈ b.groups then 0 else b.attempts jobId g
            completed := Function.update b.completed jobId none
            failed := Function.update b.failed jobId none }

/-- What a trimmed entry leaves: a held claim, or its message as a candidate for deletion. -/
def trimEntry (timestamp : Int) (x : Broadcast × List JobId) (e : Entry BroadcastEntry) :
    Broadcast × List JobId :=
  match x.1.jobs e.val.jobId with
  | none => x
  | some m =>
    if entryPendingInAnyGroup x.1 e.id then
      ((x.1.setJob e.val.jobId (some { m with bcastHeld := m.bcastHeld + 1 })).setHeld
        (x.1.held.add ⟨e.id, e.val.jobId⟩ timestamp), x.2)
    else (x.1, x.2 ++ [e.val.jobId])

/-- A claim that is still pending moves to the back. -/
def recheckHeld (timestamp : Int) (x : Broadcast × List JobId) (h : HeldClaim) : Broadcast × List JobId :=
  if entryPendingInAnyGroup x.1 h.entryId then (x.1.setHeld (x.1.held.add h timestamp), x.2)
  else
    match x.1.jobs h.jobId with
    | none => (x.1.setHeld (x.1.held.rem h), x.2)
    | some m =>
      ((x.1.setJob h.jobId (some { m with bcastHeld := max (m.bcastHeld - 1) 0 })).setHeld
        (x.1.held.rem h), x.2 ++ [h.jobId])

/-- At most 1000 entries a call, by `MINID` if there is a next one. -/
def trimStream (s : Stream BroadcastEntry) (maxLen : Nat) : Stream BroadcastEntry :=
  let excess := s.entries.length - maxLen
  if excess = 0 then s
  else match s.entries[min excess 1000]? with
    | some next => s.xtrimMinId next.id
    | none => s.xtrimMaxLen maxLen

/-- The reply: the number of trimmed entries, and of those that some subscription had not read, once for
each such subscription. -/
def trimBroadcast (b : Broadcast) (maxLen : Nat) (timestamp : Int) : Broadcast × (Nat × Nat) :=
  let excess := b.stream.entries.length - maxLen
  let held := b.held.take 100
  if excess = 0 ∧ held = [] then (b, (0, 0))
  else
    let entries := b.stream.entries.take (min excess 1000)
    let unread := (entries.map fun e => b.groups.countP fun g => (b.stream.groups g).lastDelivered < e.id).sum
    let x := entries.foldl (trimEntry timestamp) ({ b with stream := trimStream b.stream maxLen }, [])
    let y := held.foldl (recheckHeld timestamp) x
    (y.2.foldl deleteTrimmedBroadcastJob y.1, (entries.length, unread))

/-! ## The other calls -/

inductive SettleOutcome where
  | completed
  | failed
  /-- The retry is due at this time. -/
  | retrying (retryAt : Int)
  deriving DecidableEq

/-- `Broadcast.publish` of a message without a delay; an id that is taken is refused. -/
def publish (b : Broadcast) (jobId : JobId) : Broadcast :=
  match b.jobs jobId with
  | some _ => b
  | none => { b.setJob jobId (some { state := some .waiting }) with stream := b.stream.xadd { jobId } }

/-- `XGROUP CREATE`. -/
def subscribe (b : Broadcast) (g : Group) (startId : Nat) : Broadcast :=
  if g ∈ b.groups then b
  else { b with groups := b.groups ++ [g], stream := b.stream.setGroup g { lastDelivered := startId } }

/-- `XREADGROUP` of one entry. -/
def readNext (b : Broadcast) (g : Group) (consumer : String) : Broadcast :=
  if g ∈ b.groups then
    match b.stream.next? g with
    | some e => { b with stream := b.stream.deliver g consumer e }
    | none => b
  else b

/-- `XACK`, of an entry that is for another subscription or that the filter of subjects skips. -/
def skipEntry (b : Broadcast) (g : Group) (entryId : Nat) : Broadcast :=
  { b with stream := b.stream.xack g entryId }

def Broadcast.setState (b : Broadcast) (jobId : JobId) (m : Message) (state : JobState) : Broadcast :=
  b.setJob jobId (some { m with state := some state })

/-- The end of a claim, `glidemq_complete` and `failJobCore` in broadcast mode. -/
def settleClaim (b : Broadcast) (g : Group) (jobId : JobId) (entryId : Nat) (timestamp : Int)
    (outcome : SettleOutcome) : Broadcast :=
  if g ∈ b.groups then
    match b.jobs jobId with
    | none => skipEntry b g entryId
    | some m =>
      match outcome with
      | .completed =>
        { (skipEntry b g entryId).setState jobId m .completed with
          completed := Function.update b.completed jobId (some timestamp) }
      | .failed =>
        { (skipEntry b g entryId).setState jobId m .failed with
          attempts := Function.update b.attempts jobId
            (Function.update (b.attempts jobId) g (b.attempts jobId g + 1))
          failed := Function.update b.failed jobId (some timestamp) }
      | .retrying retryAt =>
        { (skipEntry b g entryId).setState jobId m .delayed with
          attempts := Function.update b.attempts jobId
            (Function.update (b.attempts jobId) g (b.attempts jobId g + 1))
          scheduled := Function.update b.scheduled jobId
            (Function.update (b.scheduled jobId) (some g) (some retryAt)) }
  else b

/-- `glidemq_promote` of a retry that is due. -/
def promoteRetry (b : Broadcast) (jobId : JobId) (g : Group) (now : Int) : Broadcast :=
  match b.scheduled jobId (some g) with
  | none => b
  | some due =>
    if due ≤ now then
      { b.setJob jobId (some { (b.jobs jobId).getD {} with
          state := some .waiting, bcastEntry := some (b.stream.lastId + 1) }) with
        scheduled := Function.update b.scheduled jobId
          (Function.update (b.scheduled jobId) (some g) none)
        stream := b.stream.xadd { jobId, retryGroup := some g } }
    else b

/-- `glidemq_moveToActive`. -/
def activateMessage (b : Broadcast) (jobId : JobId) : Broadcast :=
  match b.jobs jobId with
  | some m => b.setState jobId m .active
  | none => b

end GlideMq
