import GlideMq.Model.Calls
import GlideMq.Proofs.ChainSteps
import GlideMq.Proofs.Life

/-!
# Steps

A call is a run of steps. Most steps are moves, and each move has a reason: what the code checked
before it, or, where it checked nothing, the call that asked for it. An invariant is proved step by
step. A job that a call has taken out and not put back is in its hand, and the invariants except it.
-/

namespace GlideMq

open Queue Redis

/-! ## What a call asks for -/

def Call.completing : Call → Option CompleteArgs
  | .complete a => some a
  | .completeAndFetchNext a => some a.toCompleteArgs
  | _ => none

def Call.completionSlot : Call → Slot
  | .completeAndFetchNext a => if a.groupKey ≠ .absent then .release a.groupKey.value else .leave
  | _ => .release none

def Call.failing : Call → Option FailArgs
  | .fail a _ | .failAndFetchNext a _ => some a
  | _ => none

/-- The failure is not the last one. -/
def FailArgs.again (a : FailArgs) (s : Queue) : Prop :=
  0 < a.maxAttempts ∧ (s.job a.jobId).attemptsMade + 1 < a.maxAttempts

def Call.requeues (s : Queue) : Call → Prop
  | .fail a requeueOnly => requeueOnly ∨ a.again s
  | .failAndFetchNext a _ => a.again s
  | _ => False

def Call.chains : Call → Bool
  | .completeAndFetchNext _ | .failAndFetchNext _ _ => true
  | _ => false

/-- The entry that the caller names is the job's own. -/
def Call.ownEntry (s : Queue) : Call → Prop
  | .complete a => EntryOf s a.jobId a.entryId
  | .completeAndFetchNext a => EntryOf s a.jobId a.entryId
  | .fail a _ | .failAndFetchNext a _ => EntryOf s a.jobId a.entryId
  | .moveToActive a => EntryOf s a.jobId a.entryId
  | .deferActive a => EntryOf s a.jobId a.entryId
  | .moveActiveToDelayed a _ | .moveToWaitingChildren a | .suspend a _ =>
    EntryOf s a.jobId a.entryId
  | .rateLimitGroup a => EntryOf s a.jobId a.entryId
  | _ => True

/-! The calls are those on one queue. A call that is not there is one on several queues. -/

def OwnEntry (s : Queue) (c : Option Call) : Prop := ∀ call ∈ c, call.ownEntry s

/-- The call finds the job stalled. -/
def Reclaims (s : Queue) (c : Option Call) (J : JobId) : Prop :=
  (∃ a visited, c = some (.reclaimStalled a visited) ∧
    ∃ e ∈ s.stream.claimable a.group visited, e.val.jobId = J) ∨
  ∃ a scan, c = some (.reclaimStalledListJobs a scan) ∧ J ∈ (activeListIds s scan).2.1

/-- The stall check would hand the job out again. -/
def ReclaimArgs.handsOut (a : ReclaimArgs) (j : Job) : Prop :=
  ¬ isExpired j a.timestamp ∧
    (∀ t ∈ j.lastActive, effectiveIdle j.opts a.workerLockDuration a.minIdleMs ≤ a.timestamp - t) ∧
    j.stalledCount < a.maxStalledCount

def Queue.handsOut (s : Queue) (a : ReclaimArgs) (J : JobId) : Prop :=
  s.jobs J ≠ none ∧ a.handsOut (s.job J)

def Redispatches (s : Queue) (c : Option Call) (J : JobId) : Prop :=
  Reclaims s c J ∧ ∀ a visited, c = some (.reclaimStalled a visited) → s.handsOut a J

/-- The call takes the due member. -/
def TakesDue (s : Queue) (c : Option Call) (member : String) : Prop :=
  ∃ now serverNow, c = some (.promote now serverNow) ∧
    ∃ p x, (member, x) ∈ s.scheduled.items ∧ p * priorityShift ≤ x ∧ x ≤ p * priorityShift + now

/-- The member's job is not past its time, or not there. -/
def Promotes (s : Queue) (c : Option Call) (member : String) : Prop :=
  TakesDue s c member ∧ ∀ now serverNow, c = some (.promote now serverNow) →
    ¬ isExpired (s.job (splitMember member).1) now

def Drains (s : Queue) (c : Option Call) (J : JobId) : Prop :=
  ∃ drainDelayed group serverNow, c = some (.drain drainDelayed group serverNow) ∧
    ((∃ e ∈ undelivered s group, e.val.jobId = J) ∨ (drainDelayed ∧ J ∈ s.scheduled) ∨
      J ∈ s.lifoList ∨ J ∈ s.priorityList)

def Sweeps (c : Option Call) : Prop := ∃ now serverNow, c = some (.promoteRateLimited now serverNow)

/-- The call changes the place that the job waits in. -/
def Reschedules (c : Option Call) (J : JobId) : Prop :=
  (∃ newPriority group, c = some (.changePriority J newPriority group)) ∨
    (∃ newDelay now group, c = some (.changeDelay J newDelay now group)) ∨
    c = some (.promoteJob J)

def Retries (c : Option Call) : Prop :=
  (∃ count timestamp, c = some (.retryJobs count timestamp)) ∨
    ∃ J timestamp, c = some (.retryJob J timestamp)

/-- The call may make the job. The adds that touch several queues are no call on one. -/
def Creates (s : Queue) (c : Option Call) (J : JobId) : Prop :=
  c = none ∨ (∃ a, c = some (.addJob a) ∧ (addJob s a).2 = .added J) ∨
    ∃ a, c = some (.dedup a) ∧ (dedup s a).2 = .added J

/-- The call takes an automatic id, in use or not. -/
def IssuesId (s : Queue) (c : Option Call) (J : JobId) : Prop :=
  ((∃ a, c = some (.addJob a) ∧ a.customJobId = none) ∨
    ∃ a, c = some (.dedup a) ∧ a.customJobId = none) ∧ ∃ t, incrId s = some (t, J)

/-! ## Reasons -/

/-- A place for a job that waits. Only LIFO jobs go to the LIFO list. -/
def Place.queued (s : Queue) (J : JobId) : Place → Prop
  | .stream _ | .priorityFront | .priorityBack => True
  | .lifo => (s.job J).lifo
  | _ => False

def Place.scheduling : Place → Prop
  | .scheduled _ => True
  | _ => False

/-- An ordered job keeps its slot. -/
def slotOf (s : Queue) (J : JobId) : Slot := if 0 < (s.job J).orderingSeq then .retain else .release none

/-- The slot of a job that ends. -/
def endSlot (st : Option JobState) : Slot := if st = some .active then .release none else .closeHole

/-- Why a job moves. `s₀` is the queue before the call. -/
inductive Why (s₀ : Queue) (c : Option Call) (s : Queue) : Move → Prop
  | park {J gk group e x} (hst : isActivatable (s.stateOf J)) (hj : s.jobs J ≠ none)
      (hkey : (s.job J).groupKey = some gk) (he : OwnEntry s₀ c → EntryOf s J e) :
      Why s₀ c s
        { job := J, group, entry := e, place := .groupq gk x, state := .groupWaiting }
  | refuse {J group e x} (hst : isActivatable (s.stateOf J)) (hj : s.jobs J ≠ none)
      (he : OwnEntry s₀ c → EntryOf s J e) :
      Why s₀ c s
        { job := J, group, entry := e, place := .failed x, state := .failed, slot := .closeHole }
  | start {J} (hst : isActivatable (s.stateOf J)) (hj : s.jobs J ≠ none)
      (hkey : (s.job J).groupKey = none ∨ J ∈ s₀.lifoList) :
      Why s₀ c s { job := J, state := .active }
  | startFirst {J gk} (hst : isActivatable (s.stateOf J)) (hj : s.jobs J ≠ none)
      (hkey : (s.job J).groupKey = some gk)
      (hnext : (s.job J).orderingSeq = 0 ∨ (s.groups gk).nextSeq = 0 ∨
        (s.job J).orderingSeq = (s.groups gk).nextSeq)
      (hfull : (s.groups gk).maxConcurrency ≤ 0 ∨
        (s.groups gk).active < (s.groups gk).maxConcurrency) :
      Why s₀ c s
        { job := J
          sources := if 0 < (s.job J).orderingSeq then [.groupq gk] else []
          state := .active
          slot := .take gk }
  | startAgain {J gk} (inQueue : Bool) (hst : isActivatable (s.stateOf J)) (hj : s.jobs J ≠ none)
      (hkey : (s.job J).groupKey = some gk) (hseq : 0 < (s.job J).orderingSeq)
      (hnext : (s.job J).orderingSeq < (s.groups gk).nextSeq) :
      Why s₀ c s
        { job := J, sources := if inQueue then [] else [.groupq gk], state := .active }
  | promote {J gk} (hq : J ∈ s.groupq gk) (hst : s.stateOf J = some .groupWaiting) :
      Why s₀ c s { job := J, sources := [.groupq gk], place := .stream none, state := .waiting }
  | oversize {J gk x} (hq : J ∈ s.groupq gk) (hj : s.jobs J ≠ none)
      (hcap : 0 < (s.groups gk).tbCapacity)
      (hcost : (s.groups gk).tbCapacity < (s.job J).cost.getD 1000) :
      Why s₀ c s
        { job := J, sources := [.groupq gk], place := .failed x, state := .failed,
          slot := .closeHole }
  /-- A returning job of the sweep. By then its group may have promoted it. -/
  | oversizeReturner {J gk x} (hc : Sweeps c) (hst : s.stateOf J = some .groupWaiting ∨
        s.stateOf J = some .waiting ∨ s.stateOf J = some .failed) :
      Why s₀ c s
        { job := J, sources := [.groupq gk], place := .failed x, state := .failed,
          slot := .closeHole }
  | promoteReturner {J gk} (hc : Sweeps c) (hparked : s₀.stateOf J = some .groupWaiting) (hret : J ∈ s₀.returning gk)
      (hfits : ¬ (0 < (s₀.groups gk).tbCapacity ∧
        (s₀.groups gk).tbCapacity < (s₀.job J).cost.getD 1000))
      (hst : s.stateOf J = some .groupWaiting ∨ s.stateOf J = some .waiting ∨
        s.stateOf J = some .failed) :
      Why s₀ c s { job := J, sources := [.groupq gk], place := .stream none, state := .waiting }
  | expireParked {J gk x} (hq : J ∈ s.groupq gk) (hst : s.stateOf J = some .groupWaiting) :
      Why s₀ c s
        { job := J, sources := [.groupq gk], place := .failed x, state := .failed,
          slot := .closeHole }
  | complete {call a} (hc : c = some call) (ha : call.completing = some a)
      (hs : s.life = s₀.life) (hst : s.stateOf a.jobId ≠ none) (hr : a.retention ≠ .remove) :
      Why s₀ c s
        { job := a.jobId, group := a.group, entry := a.entryId, place := .completed a.timestamp,
          state := .completed, slot := call.completionSlot }
  | retry {call a x} (hc : c = some call) (ha : call.failing = some a)
      (hs : s.life = s₀.life) (hj : s.jobs a.jobId ≠ none) (hagain : call.requeues s₀) :
      Why s₀ c s
        { job := a.jobId, group := a.group, entry := a.entryId, place := .scheduled x,
          state := .delayed, slot := slotOf s a.jobId }
  | fail {call a} (hc : c = some call) (ha : call.failing = some a) (hs : s.life = s₀.life)
      (hj : s.jobs a.jobId ≠ none) (hr : a.retention ≠ .remove) :
      Why s₀ c s
        { job := a.jobId, group := a.group, entry := a.entryId, place := .failed a.timestamp,
          state := .failed, slot := .release none }
  | stallOut {J x} (hc : Reclaims s₀ c J) (hj : s.jobs J ≠ none) :
      Why s₀ c s { job := J, place := .failed x, state := .failed, slot := .release none }
  | expireStalled {J x} (hc : Reclaims s₀ c J) (hj : s.jobs J ≠ none)
      (hst : s.stateOf J ≠ some .failed) :
      Why s₀ c s { job := J, place := .failed x, state := .failed, slot := endSlot (s.stateOf J) }
  | redispatch {J group e p} (hc : Redispatches s₀ c J) (hj : s.jobs J ≠ none) (hp : p.queued s J)
      (he : EntryOf s J e) :
      Why s₀ c s { job := J, group, entry := e, place := p, state := .waiting }
  | takeDue {member p} (hc : Promotes s₀ c member) (hp : p.queued s (splitMember member).1) :
      Why s₀ c s
        { job := (splitMember member).1, sources := [.scheduled member], place := p,
          state := .waiting }
  | expireDue {member x} (hc : TakesDue s₀ c member) (hj : s.jobs (splitMember member).1 ≠ none)
      (hst : s.stateOf (splitMember member).1 ≠ some .failed) :
      Why s₀ c s
        { job := (splitMember member).1, sources := [.scheduled member], place := .failed x,
          state := .failed, slot := endSlot (s.stateOf (splitMember member).1) }
  | defer {a : DeferArgs} {p} (hc : c = some (.deferActive a)) (hs : s.life = s₀.life)
      (hj : s.jobs a.jobId ≠ none) (hp : p.queued s a.jobId) :
      Why s₀ c s
        { job := a.jobId, group := a.group, entry := a.entryId,
          sources := if a.entryId = none then [.claim] else [], place := p, state := .waiting,
          slot := if a.undoGroupClaim then .undo else .leave }
  | revoke {J group e x} (hst : s.stateOf J = some .waiting ∨ s.stateOf J = some .delayed ∨
        s.stateOf J = some .prioritized) (he : EntryOf s J e) :
      Why s₀ c s
        { job := J, group, entry := e, sources := [.scheduled J, .lifo, .priority],
          place := .failed x, state := .failed, slot := .closeHole }
  | revokeParked {J x timestamp serverNow group}
      (hc : c = some (.revoke J timestamp serverNow group)) (hj : s.jobs J ≠ none) :
      Why s₀ c s { job := J, place := .failed x, state := .failed }
  | reschedule {J group e p src st} (hst : s.stateOf J = some .waiting ∨ s.stateOf J = some .delayed ∨
        s.stateOf J = some .prioritized) (he : EntryOf s J e)
      (hsrc : ∀ source ∈ src, source = .priority ∨ source = .lifo ∨ source = .scheduled J)
      (hp : st = .waiting ∧ p.queued s J ∨ (st = .delayed ∨ st = .prioritized) ∧ p.scheduling)
      (hc : Reschedules c J) :
      Why s₀ c s { job := J, group, entry := e, sources := src, place := p, state := st }
  | postpone {J group e x} (hst : s.stateOf J = some .active) (he : OwnEntry s₀ c → EntryOf s J e)
      (hc : ∃ a delayedUntil, c = some (.moveActiveToDelayed a delayedUntil) ∧ a.jobId = J) :
      Why s₀ c s
        { job := J, group, entry := e, place := .scheduled x, state := .delayed, slot := slotOf s J }
  | waitForChildren {J group e} (hst : s.stateOf J = some .active)
      (he : OwnEntry s₀ c → EntryOf s J e) :
      Why s₀ c s { job := J, group, entry := e, state := .waitingChildren, slot := slotOf s J }
  | suspend {J group e x} (hst : s.stateOf J = some .active) (he : OwnEntry s₀ c → EntryOf s J e) :
      Why s₀ c s
        { job := J, group, entry := e, place := .suspended x, state := .suspended,
          slot := slotOf s J }
  | release {J} (hst : s.stateOf J = some .waitingChildren) :
      Why s₀ c s { job := J, place := .stream none, state := .waiting }
  /-- A parent that had nothing to wait for. Its group may have failed it since it gave up its slot. -/
  | releaseAtOnce {a : PostponeArgs} (hc : c = some (.moveToWaitingChildren a))
      (hactive : s₀.stateOf a.jobId = some .active)
      (hst : s.stateOf a.jobId = some .waitingChildren ∨ s.stateOf a.jobId = some .failed) :
      Why s₀ c s { job := a.jobId, place := .stream none, state := .waiting }
  | signal {J} (hst : s.stateOf J = some .suspended) :
      Why s₀ c s { job := J, sources := [.suspended], place := .stream none, state := .waiting }
  | timeOut {J x} (hst : s.stateOf J = some .suspended) :
      Why s₀ c s
        { job := J, place := .failed x, state := .failed,
          slot := if 0 < (s.job J).orderingSeq then .release (s.job J).groupKey else .leave }
  | rateLimit {J gk group e x} (hst : s.stateOf J = some .active)
      (hkey : (s.job J).groupKey = some gk) (he : OwnEntry s₀ c → EntryOf s J e) :
      Why s₀ c s
        { job := J, group, entry := e, place := .groupq gk x, state := .groupWaiting,
          slot := slotOf s J }
  | rateLimitFail {J group e x} (hst : s.stateOf J = some .active)
      (he : OwnEntry s₀ c → EntryOf s J e) :
      Why s₀ c s
        { job := J, group, entry := e, place := .failed x, state := .failed, slot := .release none }

/-- Why a job is taken into the call's hand. -/
inductive WhyTaken (s₀ : Queue) (c : Option Call) (s : Queue) : Move → Prop
  | remove {J serverNow st src} (hc : c = some (.removeJob J serverNow)) (hs : s.life = s₀.life)
      (hj : s.jobs J ≠ none) (hsrc : ∀ source ∈ src, ∃ gk, source = .groupq gk) :
      WhyTaken s₀ c s { job := J, sources := src, state := st, slot := endSlot (s.stateOf J) }
  | complete {call a st} (hc : c = some call) (ha : call.completing = some a)
      (hs : s.life = s₀.life) (hst : s.stateOf a.jobId ≠ none) (hr : a.retention = .remove) :
      WhyTaken s₀ c s
        { job := a.jobId, group := a.group, entry := a.entryId, state := st,
          slot := call.completionSlot }
  | fail {call a st} (hc : c = some call) (ha : call.failing = some a) (hs : s.life = s₀.life)
      (hj : s.jobs a.jobId ≠ none) (hr : a.retention = .remove) :
      WhyTaken s₀ c s
        { job := a.jobId, group := a.group, entry := a.entryId, state := st,
          slot := .release none }
  | replace {J a st} (hc : c = some (.dedup a)) (hs : s.life = s₀.life)
      (hst : s.stateOf J = some .delayed ∨ s.stateOf J = some .prioritized) :
      WhyTaken s₀ c s
        { job := J, sources := [.scheduled J], state := st, slot := .closeHole }
  | revoke {J timestamp serverNow group st src}
      (hc : c = some (.revoke J timestamp serverNow group)) (hst : s.stateOf J = some .groupWaiting)
      (hsrc : ∀ source ∈ src, ∃ gk, source = .groupq gk) :
      WhyTaken s₀ c s { job := J, sources := src, state := st, slot := .closeHole }

/-! ## Steps -/

/-- The job in the call's hand, and the queue. -/
abbrev Cfg := Option JobId × Queue

/-- What a new job's hash and its group get. -/
structure NewJob where
  key : Option GroupKey
  group : GroupHash → GroupHash
  fields : Nat → Job → Job
  state : JobState
  lifo : Bool

/-- A group keeps what belongs to its jobs, and a job gets its state, its key and its sequence. -/
structure NewJob.Ok (n : NewJob) : Prop where
  active : ∀ g, (n.group g).active = g.active
  skip : ∀ g, (n.group g).skip = g.skip
  nextSeq : ∀ g, (n.group g).nextSeq = if g.nextSeq = 0 then 1 else g.nextSeq
  job : ∀ seq j, (n.fields seq j).life =
    { j.life with
      state := some n.state
      lifo := n.lifo || j.lifo
      groupKey := if n.key.isSome then n.key else j.groupKey
      orderingSeq := if n.key.isSome then seq else j.orderingSeq
      cost := (n.fields seq j).cost
      expireAt := (n.fields seq j).expireAt }

def Queue.create (s : Queue) (J : JobId) (n : NewJob) : Queue :=
  let r := issueSeq s n.key
  let s :=
    match n.key with
    | none => r.1
    | some k => r.1.hgroup k n.group
  s.hset J (n.fields r.2)

inductive QStep (s₀ : Queue) (c : Option Call) : Cfg → Cfg → Prop
  | quiet {h s t} (ht : t.life = s.life) : QStep s₀ c (h, s) (h, t)
  | move {h h' s t m} (why : Why s₀ c s m) (hh : h' = h ∨ h = some m.job ∧ h' = none)
      (ht : t.life = (m.apply s).life) : QStep s₀ c (h, s) (h', t)
  | limit {h s} (gk : GroupKey) (x : Int) : QStep s₀ c (h, s) (h, s.zaddRatelimited gk x)
  | unlimit {h s} (gk : GroupKey) : QStep s₀ c (h, s) (h, s.zremRatelimited gk)
  | skip {h s} (gk : GroupKey) : QStep s₀ c (h, s) (h, (skipToNext s gk (s.groups gk).nextSeq).1)
  | tombstone {h s gk J x} (hq : (s.groupq gk).first? = some (J, x)) (hj : s.jobs J = none) :
      QStep s₀ c (h, s)
        (h, (consumeOrderedTombstone (s.zremGroupq gk J) gk (s.groups gk).nextSeq J x).1)
  | unpark {h s gk J} (hq : J ∈ s.groupq gk) (hst : s.stateOf J ≠ some .groupWaiting) :
      QStep s₀ c (h, s) (h, s.zremGroupq gk J)
  | repark {h s gk J} (hq : J ∈ s.groupq gk) (x : Int) :
      QStep s₀ c (h, s) (h, (s.zremGroupq gk J).zaddGroupq gk J x)
  | ack {h s J group e} (hst : h = some J ∨ s.stateOf J ≠ some .waiting ∨ J = "")
      (he : OwnEntry s₀ c → EntryOf s J e) : QStep s₀ c (h, s) (h, ackDel s group e)
  | unclaim {h s J}
      (hst : h = some J ∨ s.stateOf J ≠ some .waiting ∨ ∃ e ∈ s.stream.entries, e.val.jobId = J) :
      QStep s₀ c (h, s) (h, s.dropClaim J)
  | flag {h s J timestamp serverNow group} (hc : c = some (.revoke J timestamp serverNow group))
      (hj : s.jobs J ≠ none) : QStep s₀ c (h, s) (h, s.hset J ({ · with revoked := true }))
  | unsuspend {h s J} (hst : h = some J ∨ s.stateOf J ≠ some .suspended) :
      QStep s₀ c (h, s) (h, s.zremSuspended J)
  | unschedule {h s member} (hc : TakesDue s₀ c member)
      (hst : s.stateOf (splitMember member).1 = some .failed) :
      QStep s₀ c (h, s) (h, s.zremScheduled member)
  | take {s t m} (why : WhyTaken s₀ c s m) (ht : t.life = (m.withdraw s).life) :
      QStep s₀ c (none, s) (some m.job, t)
  | empty {s J} (src : Source) (hsrc : src = .scheduled J ∨ src = .lifo ∨ src = .priority) :
      QStep s₀ c (some J, s) (some J, s.takeFrom J src)
  | unend {h s J} (t : TerminalSet) (hst : h = some J ∨ s.jobs J = none) :
      QStep s₀ c (h, s) (h, s.zremTerminal t J)
  | delete {s J} : QStep s₀ c (some J, s) (none, s.unlinkJob J)
  | sweep {h s J} (t : TerminalSet) (hmem : J ∈ s.terminalSet t) :
      QStep s₀ c (h, s) (h, (s.unlinkJob J).zremTerminal t J)
  | drain {h s t J} (hc : Drains s₀ c J)
      (ht : t.life = ((closeOrderingHole s J).unlinkJob J).life) : QStep s₀ c (h, s) (h, t)
  | clearScheduled {h s} (hgone : ∀ J ∈ s.scheduled, s.jobs J = none) :
      QStep s₀ c (h, s) (h, s.unlinkScheduled)
  | clearList {h s} (k : ListKey) (hgone : ∀ J ∈ s.list k, s.jobs J = none) :
      QStep s₀ c (h, s) (h, match k with | .priority => s.unlinkPriority | .lifo => s.unlinkLifo)
  | pop {s k J} (hlast : (s.list k).getLast? = some J) (hreach : J ∈ s₀.withinReach k)
      (hc : ∃ call, c = some call ∧ call.chains) : QStep s₀ c (none, s) (some J, s.drop k)
  | discard {s k J} (hreach : J ∈ s₀.withinReach k) (hc : ∃ call, c = some call ∧ call.chains)
      (hst : s.stateOf J = none ∨ ¬ isActivatable (s.stateOf J) ∨ (s.job J).revoked) :
      QStep s₀ c (some J, s) (none, s)
  | reserve {h s k J} (hlast : (s.list k).getLast? = some J) :
      QStep s₀ c (h, s) (h, (s.drop k).takeClaims [J])
  | retry {h s t J timestamp} (hc : Retries c) (hmem : J ∈ s.failed ∨ s.stateOf J = some .failed)
      (hj : s.jobs J ≠ none)
      (ht : t.life = (retryFailedJob (s.zremFailed J) J timestamp).life) : QStep s₀ c (h, s) (h, t)
  | create {s t J n} (hc : Creates s₀ c J) (hn : n.Ok) (hfree : s.jobs J = none ∨ IssuesId s₀ c J)
      (ht : t.life = (s.create J n).life) : QStep s₀ c (none, s) (some J, t)
  | record {h s a J x} (hc : c = some (.dedup a)) (hJ : (dedup s₀ a).2 = .added J) :
      QStep s₀ c (h, s) (h, s.setDedup a.dedupId J x)
  | enqueue {s J p st} (hst : s.stateOf J = some st)
      (hp : st = .waiting ∧ p.queued s J ∨ (st = .delayed ∨ st = .prioritized) ∧ p.scheduling ∨
        st = .waitingChildren ∧ p = .nowhere)
      (hc : Creates s₀ c J) : QStep s₀ c (some J, s) (none, s.put J p)

abbrev QSteps (s₀ : Queue) (c : Option Call) : Cfg → Cfg → Prop := Relation.ReflTransGen (QStep s₀ c)

end GlideMq
