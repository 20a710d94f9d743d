import GlideMq.Proofs.ChainVars
import GlideMq.Proofs.ClaimRuns

/-!
# The chain call and the worker's claim

A chain call that reads a stream entry activates its job "same as moveToActive", with its own copy
of the gates. The two agree up to jobs from before the frontier, which only the worker's claim lets
through.
-/

namespace GlideMq

open Queue Redis

/-! ## What is done with a claimed entry -/

inductive Treatment where
  | nothing
  /-- The entry of a job that does not wait is dropped. -/
  | skip
  /-- The worker fails the job as revoked. -/
  | revoked
  | expire
  /-- Over the capacity of its bucket. -/
  | fail
  /-- In the group's wait queue. A job that waits for tokens or a window has its group limited. -/
  | park
  | activate
  deriving DecidableEq

def ActivationResult.treatment : ActivationResult → Treatment
  | .missing | .paused | .globalFull => .nothing
  | .stale => .skip
  | .revoked => .revoked
  | .expired => .expire
  | .groupOrdered | .groupFull | .tokenLimited | .rateLimited => .park
  | .costExceedsCapacity => .fail
  | .active _ => .activate

/-- One attempt of the stream phase: the queue after it, and the reply, or `none` where the next
entry is tried. -/
def fetchEntry (s : Queue) (a : FetchArgs) (e : Entry JobEntry) : Queue × Option ChainNext :=
  let s := s.deliver a.group a.consumer e
  let J := e.val.jobId
  let job := s.job J
  if job.state = none then (s, some .none)
  else if job.revoked then (s, some (.revoked J e.id))
  else if ¬ isActivatable job.state then (ackDel s a.group (some e.id), none)
  else if isExpired job a.timestamp then
    (ackDel (expireJob s J a.timestamp a.serverNow job.state none none none) a.group (some e.id),
      none)
  else
    match job.groupKey with
    | some gk => ((fetchStreamInGroup s a J e.id gk).1, some (fetchStreamInGroup s a J e.id gk).2)
    | none => ((activateFromStream s J e.id a.timestamp).1,
        some (activateFromStream s J e.id a.timestamp).2)

/-- What an attempt did with the job, read off its reply and the job's state before and after. -/
def chainTreatment (s : Queue) (r : Queue × Option ChainNext) (J : JobId) : Treatment :=
  match r.2 with
  | some (.hash _ _ _) => .activate
  | some (.revoked _ _) => .revoked
  | some .none =>
    if r.1.stateOf J = some .groupWaiting then .park
    else if r.1.stateOf J = some .failed then .fail
    else .nothing
  | none => if r.1.stateOf J = s.stateOf J then .skip else .expire

/-- The stream phase is up to three attempts. -/
def fetchEntries (a : FetchArgs) (listsEmpty : Bool) : Nat → Queue → Queue × ChainNext
  | 0, s => (s, .none)
  | attempts + 1, s =>
    match s.stream.next? a.group with
    | none => (s.setChainListsEmpty listsEmpty, .none)
    | some e =>
      match fetchEntry s a e with
      | (s, some next) => (s, next)
      | (s, none) => fetchEntries a listsEmpty attempts s

theorem fetchEntries_eq (a : FetchArgs) (listsEmpty : Bool) (n : Nat) (s : Queue) :
    fetchEntries a listsEmpty n s =
      match streamPhase a listsEmpty n s with
      | (s, .reply next) => (s, next)
      | (s, .picked J e) =>
        match (s.job J).groupKey with
        | some gk => fetchStreamInGroup s a J e gk
        | none => activateFromStream s J e a.timestamp := by
  induction n generalizing s with
  | zero => rfl
  | succ n ih =>
    rw [fetchEntries, streamPhase]
    cases hnext : s.stream.next? a.group with
    | none => rfl
    | some e =>
      simp only
      unfold fetchEntry
      simp only
      generalize s.deliver a.group a.consumer e = t
      by_cases hstate : (t.job e.val.jobId).state = none
      · simp [hstate]
      by_cases hrevoked : (t.job e.val.jobId).revoked
      · simp [hstate, hrevoked]
      by_cases hactivatable : isActivatable (t.job e.val.jobId).state
      · by_cases hexpired : isExpired (t.job e.val.jobId) a.timestamp
        · simpa [hstate, hrevoked, hactivatable, hexpired] using ih _
        · cases hkey : (t.job e.val.jobId).groupKey <;>
            simp [hstate, hrevoked, hactivatable, hexpired, hkey]
      · simpa [hstate, hrevoked, hactivatable] using ih _

theorem fetchStream_eq (s : Queue) (a : FetchArgs) (listsEmpty : Bool) :
    fetchStream s a listsEmpty = fetchEntries a listsEmpty 3 s := (fetchEntries_eq a listsEmpty 3 s).symm

/-- `XREADGROUP` of the entry, and the worker's claim. -/
def claimEntry (s : Queue) (a : FetchArgs) (e : Entry JobEntry) (globalGate : Bool) :
    Queue × ActivationResult :=
  moveToActive (s.deliver a.group a.consumer e)
    { jobId := e.val.jobId, entryId := some e.id, group := a.group, timestamp := a.timestamp,
      serverNow := a.serverNow, globalGate }

/-- The same is done with the job, with its hash and with its group. -/
structure SameOutcome (s : Queue) (J : JobId) (r : Queue × Option ChainNext)
    (r' : Queue × ActivationResult) : Prop where
  treatment : chainTreatment s r J = r'.2.treatment
  jobs : r.1.jobs = r'.1.jobs
  groups : r.1.groups = r'.1.groups
  groupq : r.1.groupq = r'.1.groupq
  ratelimited : r.1.ratelimited = r'.1.ratelimited

/-- The chain call and the worker's claim agree on the entry. -/
def Agrees (s : Queue) (a : FetchArgs) (e : Entry JobEntry) (globalGate : Bool) : Prop :=
  SameOutcome s e.val.jobId (fetchEntry s a e) (claimEntry s a e globalGate)

/-! ## When they agree -/

/-- The job is from before its group's frontier and is not over the capacity of its bucket. -/
def Returns (s : Queue) (J : JobId) (gk : GroupKey) : Prop :=
  let g := s.groups gk
  0 < (s.job J).orderingSeq ∧ 0 < g.nextSeq ∧ (s.job J).orderingSeq < skipsEnd g g.nextSeq ∧
    ¬ (0 < g.tbCapacity ∧ g.tbCapacity < (s.job J).cost.getD 1000)

/-- The job's state lets it reach the group gates. -/
def ReachesGates (s : Queue) (J : JobId) (now : Int) : Prop :=
  isActivatable (s.job J).state ∧ ¬ (s.job J).revoked ∧ ¬ isExpired (s.job J) now

/-- A bucket without enough tokens or a full window. -/
def Limited (s : Queue) (J : JobId) (gk : GroupKey) (now serverNow : Int) : Prop :=
  (tokenDelay (s.groups gk) (tbRefill (s.groups gk) serverNow).2 ((s.job J).cost.getD 1000)).isSome ∨
    (windowDelay (s.groups gk) now).isSome

/-- The hash has a state, a revoked job waits, and a returning job is neither limited nor parked. -/
structure AgreesWhen (s : Queue) (a : FetchArgs) (J : JobId) : Prop where
  state : (s.job J).state ≠ none
  revoked : (s.job J).revoked → isActivatable (s.job J).state
  returning : ∀ gk, (s.job J).groupKey = some gk → ReachesGates s J a.timestamp → Returns s J gk →
    ¬ Limited s J gk a.timestamp a.serverNow ∧ J ∉ s.groupq gk

/-! ## Behind the frontier -/

/-- The queue and the frontier that the gates read: only markers and the frontier may be new. -/
structure Advanced (s : Queue) (gk : GroupKey) (seq : Nat) (r : Queue × Nat) : Prop where
  jobs : r.1.jobs = s.jobs
  groupq : r.1.groupq = s.groupq
  group : ∃ skip n, r.1.groups gk = { s.groups gk with skip, nextSeq := n }
  next : r.2 = if 0 < seq ∧ 0 < (s.groups gk).nextSeq then
    skipsEnd (s.groups gk) (s.groups gk).nextSeq else 0

theorem advanced_frontierOf (s : Queue) (gk : GroupKey) (seq : Nat) :
    Advanced s gk seq (if 0 < seq then skipToNext s gk (s.groups gk).nextSeq else (s, 0)) := by
  have hself : Advanced s gk 0 (s, 0) := ⟨rfl, rfl, ⟨_, _, rfl⟩, by simp⟩
  by_cases hseq : 0 < seq
  · rw [if_pos hseq]
    unfold skipToNext
    by_cases hz : (s.groups gk).nextSeq = 0
    · rw [if_pos hz]
      exact ⟨rfl, rfl, ⟨_, _, rfl⟩, by simp [hz]⟩
    · rw [if_neg hz]
      have hnext : 0 < seq ∧ 0 < (s.groups gk).nextSeq := ⟨hseq, Nat.pos_of_ne_zero hz⟩
      simp only
      split
      · exact ⟨rfl, rfl, ⟨_, _, by simp only [setNextSeq, advancePastSkips, hgroup_groups, Function.update_self]; rfl⟩, by simp [hnext]⟩
      · exact ⟨rfl, rfl, ⟨_, _, by simp only [advancePastSkips, hgroup_groups, Function.update_self]; rfl⟩, by simp [hnext]⟩
  · rw [if_neg hseq]
    have : seq = 0 := by omega
    exact this ▸ hself

theorem tbRefill_snd_of_frontier (g : GroupHash) (skip : List Nat) (n : Nat) (x : Int) :
    (tbRefill { g with skip, nextSeq := n } x).2 = (tbRefill g x).2 := by
  unfold tbRefill
  simp only
  repeat' split
  all_goals rfl

theorem stateOf_park (s : Queue) (gk : GroupKey) (J : JobId) (x : Int) :
    (park s gk J x).stateOf J = some .groupWaiting := by
  unfold park Queue.setState
  rw [stateOf_hset, if_pos rfl]

theorem zremGroupq_of_not_mem {s : Queue} {gk : GroupKey} {J : JobId} (h : J ∉ s.groupq gk) :
    s.zremGroupq gk J = s := by
  have hrem : (s.groupq gk).rem J = s.groupq gk := by
    have hitems : ((s.groupq gk).rem J).items = (s.groupq gk).items := by
      refine List.filter_eq_self.mpr fun p hp => ?_
      have : p.1 ≠ J := by
        rintro rfl
        exact h (SortedSet.mem_iff.mpr ⟨p.2, hp⟩)
      simpa using this
    unfold SortedSet.rem at hitems ⊢
    simp only at hitems
    simp only [hitems]
  unfold zremGroupq
  rw [hrem, Function.update_eq_self]

theorem blank_failOversize_chain (s : Queue) (a : FetchArgs) (J : JobId) (gk : GroupKey) (p : Int) :
    (closeOrderingHoleAndPromote (recordFailedUnless a.skipMetrics
      (noteActivationFailure (failOversize s J gk a.timestamp) J costReason) a.timestamp
        (a.timestamp - p)) J a.timestamp a.serverNow).blank true =
      (closeOrderingHoleAndPromote (failOversize s J gk a.timestamp) J a.timestamp
        a.serverNow).blank true := by
  -- The failure of a job that is over the capacity of its bucket, up to notes and metrics.
  refine blank_closeOrderingHoleAndPromote ?_ J a.timestamp a.serverNow
  unfold recordFailedUnless
  split <;> simp

theorem stateOf_failOversize_closed (s : Queue) (J : JobId) (gk : GroupKey) (now serverNow : Int) :
    (closeOrderingHoleAndPromote (failOversize s J gk now) J now serverNow).stateOf J =
      some .failed := by
  refine (closeOrderingHoleAndPromote_steps _ J now serverNow).failed ?_
  rw [closeOrderingHole_stateOf, stateOf_of_core (core_failOversize s J gk now), stateOf_endFailed,
    if_pos rfl]

/-- The claim of the entry, as `moveToActive` gets it. -/
def FetchArgs.move (a : FetchArgs) (J : JobId) (e : Nat) (globalGate : Bool) : MoveArgs where
  jobId := J
  entryId := some e
  group := a.group
  timestamp := a.timestamp
  serverNow := a.serverNow
  globalGate := globalGate

theorem inGroup_agrees {s t : Queue} {a : FetchArgs} {J : JobId} {e : Nat} {gk : GroupKey}
    (globalGate : Bool)
    (hreturning : Returns s J gk → ¬ Limited s J gk a.timestamp a.serverNow ∧ J ∉ s.groupq gk) :
    (fetchStreamInGroup s a J e gk).1.blank true =
        (claimInGroup s (a.move J e globalGate) gk).1.blank true ∧
      chainTreatment t ((fetchStreamInGroup s a J e gk).1, some (fetchStreamInGroup s a J e gk).2) J =
        (claimInGroup s (a.move J e globalGate) gk).2.treatment := by
  have hadv := advanced_frontierOf s gk (s.job J).orderingSeq
  unfold fetchStreamInGroup claimInGroup FetchArgs.move
  simp only
  generalize (if 0 < (s.job J).orderingSeq then _ else _) = r at *
  obtain ⟨hjobs, hgroupq, ⟨skip, nx, hgroup⟩, hnext⟩ := hadv
  obtain ⟨u, n⟩ := r
  simp only at hjobs hgroupq hgroup hnext ⊢
  by_cases hearly : 0 < n ∧ n < (s.job J).orderingSeq
  · rw [if_pos hearly, if_pos hearly]
    exact ⟨rfl, by simp [chainTreatment, stateOf_park, ActivationResult.treatment]⟩
  rw [if_neg hearly, if_neg hearly]
  by_cases hfull : 0 < (u.groups gk).maxConcurrency ∧
      (u.groups gk).maxConcurrency ≤ (u.groups gk).active ∧
      ¬ (decide (0 < n ∧ (s.job J).orderingSeq < n)) = true
  · rw [if_pos hfull, if_pos hfull]
    exact ⟨rfl, by simp [chainTreatment, stateOf_park, ActivationResult.treatment]⟩
  rw [if_neg hfull, if_neg hfull]
  by_cases hover : 0 < (u.groups gk).tbCapacity ∧
      (u.groups gk).tbCapacity < (s.job J).cost.getD 1000
  · rw [if_pos hover, if_pos hover]
    refine ⟨blank_failOversize_chain _ a J gk _, ?_⟩
    have hstate := stateOf_failOversize_closed (ackDel (refill u gk a.serverNow).1 a.group (some e))
      J gk a.timestamp a.serverNow
    rw [← stateOf_of_blank (blank_failOversize_chain _ a J gk
      ((s.job J).processedOn.getD a.timestamp))] at hstate
    simp [chainTreatment, hstate, ActivationResult.treatment]
  rw [if_neg hover, if_neg hover]
  have hrefillq : (refill u gk a.serverNow).1.groupq = u.groupq := rfl
  have htokens : (refill u gk a.serverNow).2 = (tbRefill (s.groups gk) a.serverNow).2 := by
    unfold refill
    simp only
    rw [hgroup, tbRefill_snd_of_frontier]
  have htb : tokenDelay (u.groups gk) (refill u gk a.serverNow).2 ((s.job J).cost.getD 1000) =
      tokenDelay (s.groups gk) (tbRefill (s.groups gk) a.serverNow).2 ((s.job J).cost.getD 1000) := by
    rw [htokens, hgroup]
    rfl
  have hrl : windowDelay (u.groups gk) a.timestamp = windowDelay (s.groups gk) a.timestamp := by
    rw [hgroup]
    rfl
  have hlimited : ((tokenDelay (u.groups gk) (refill u gk a.serverNow).2
      ((s.job J).cost.getD 1000)).isSome ∨ (windowDelay (u.groups gk) a.timestamp).isSome) ↔
      Limited s J gk a.timestamp a.serverNow := by
    unfold Limited
    rw [htb, hrl]
  have hreturns : decide (0 < n ∧ (s.job J).orderingSeq < n) = true → Returns s J gk := by
    intro hret
    simp only [decide_eq_true_eq] at hret
    rw [hgroup] at hover
    unfold Returns
    simp only
    split at hnext
    · rename_i hseq
      exact ⟨hseq.1, hseq.2, by omega, hover⟩
    · omega
  by_cases hlim : Limited s J gk a.timestamp a.serverNow
  · have hnot : ¬ decide (0 < n ∧ (s.job J).orderingSeq < n) = true := fun hret =>
      (hreturning (hreturns hret)).1 hlim
    rw [if_pos (hlimited.mpr hlim), if_pos ⟨hlimited.mpr hlim, hnot⟩]
    refine ⟨rfl, ?_⟩
    have hstate (q : Queue) (x y : Int) :
        ((park q gk J x).zaddRatelimited gk y).stateOf J = some .groupWaiting := stateOf_park q gk J x
    simp only [chainTreatment, hstate, if_true]
    split <;> rfl
  · have hopen := fun h => hlim (hlimited.mp h)
    have hopen' : ¬ (((tokenDelay (u.groups gk) (refill u gk a.serverNow).2
        ((s.job J).cost.getD 1000)).isSome ∨ (windowDelay (u.groups gk) a.timestamp).isSome) ∧
          ¬ decide (0 < n ∧ (s.job J).orderingSeq < n) = true) := fun h => hopen h.1
    rw [if_neg hopen, if_neg hopen']
    unfold activateFromStream
    refine ⟨?_, rfl⟩
    by_cases hret : decide (0 < n ∧ (s.job J).orderingSeq < n) = true
    · have hfree : J ∉ (chargeGroup (refill u gk a.serverNow).1 gk ((s.job J).cost.getD 1000)
          a.timestamp).groupq gk := by
        have := (hreturning (hreturns hret)).2
        rw [← hgroupq] at this
        exact this
      simp [hret, zremGroupq_of_not_mem hfree]
    · simp [hret]

/-- A returning job that is limited or parked is not treated alike. -/
theorem inGroup_disagrees {s t : Queue} {a : FetchArgs} {J : JobId} {e : Nat} {gk : GroupKey}
    (globalGate : Bool) (hret : Returns s J gk)
    (hnot : Limited s J gk a.timestamp a.serverNow ∨ J ∈ s.groupq gk)
    (htreatment : chainTreatment t
      ((fetchStreamInGroup s a J e gk).1, some (fetchStreamInGroup s a J e gk).2) J =
        (claimInGroup s (a.move J e globalGate) gk).2.treatment)
    (hgroupq : (fetchStreamInGroup s a J e gk).1.groupq =
      (claimInGroup s (a.move J e globalGate) gk).1.groupq) : False := by
  have hadv := advanced_frontierOf s gk (s.job J).orderingSeq
  unfold fetchStreamInGroup claimInGroup FetchArgs.move at *
  simp only at htreatment hgroupq
  generalize (if 0 < (s.job J).orderingSeq then _ else _) = r at *
  obtain ⟨hjobs, hq, ⟨skip, nx, hgroup⟩, hnext⟩ := hadv
  obtain ⟨u, n⟩ := r
  simp only at hjobs hq hgroup hnext htreatment hgroupq
  obtain ⟨hseq, hpos, hlt, hover⟩ := hret
  rw [if_pos ⟨hseq, hpos⟩] at hnext
  have hreturns : 0 < n ∧ (s.job J).orderingSeq < n := by omega
  have hearly : ¬ n < (s.job J).orderingSeq := by omega
  have hover' : ¬ (0 < (u.groups gk).tbCapacity ∧
      (u.groups gk).tbCapacity < (s.job J).cost.getD 1000) := by rwa [hgroup]
  simp only [hearly, hreturns, hover', hseq, and_self, decide_true, not_true_eq_false, and_false,
    if_false, if_true] at htreatment hgroupq
  have hlimited : ((tokenDelay (u.groups gk) (refill u gk a.serverNow).2
      ((s.job J).cost.getD 1000)).isSome ∨ (windowDelay (u.groups gk) a.timestamp).isSome) ↔
      Limited s J gk a.timestamp a.serverNow := by
    unfold Limited refill
    rw [hgroup]
    simp only
    rw [tbRefill_snd_of_frontier]
    rfl
  by_cases hlim : Limited s J gk a.timestamp a.serverNow
  · rw [if_pos (hlimited.mpr hlim)] at htreatment
    have hstate (q : Queue) (x y : Int) :
        ((park q gk J x).zaddRatelimited gk y).stateOf J = some .groupWaiting := stateOf_park q gk J x
    simp only [chainTreatment, hstate, if_true, ActivationResult.treatment] at htreatment
    cases htreatment
  · rw [if_neg (fun h => hlim (hlimited.mp h))] at hgroupq
    have hmem : J ∈ s.groupq gk := hnot.resolve_left hlim
    have hchain : (activateFromStream (chargeGroup (refill u gk a.serverNow).1 gk
        ((s.job J).cost.getD 1000) a.timestamp) J e a.timestamp).1.groupq = s.groupq := hq
    have hplain : (activate ((chargeGroup (refill u gk a.serverNow).1 gk ((s.job J).cost.getD 1000)
        a.timestamp).zremGroupq gk J) J a.timestamp (some e).isNone).groupq gk =
          (s.groupq gk).rem J := by
      rw [← hq]
      exact Function.update_self ..
    have hgone := congrFun hgroupq gk
    rw [hchain, hplain] at hgone
    rw [hgone] at hmem
    exact (SortedSet.mem_rem.mp hmem).1 rfl

/-! ## The claim of one entry -/

theorem claimInGroup_treatment (s : Queue) (a : MoveArgs) (gk : GroupKey) :
    (claimInGroup s a gk).2.treatment ≠ .nothing := by
  unfold claimInGroup
  simp only
  generalize (if 0 < (s.job a.jobId).orderingSeq then _ else _) = r
  repeat' split
  all_goals simp [ActivationResult.treatment]

theorem globalFull_of_gate {s : Queue} {group : Group} (consumer : String) (e : Entry JobEntry)
    (hgate : ¬ (0 < s.globalConcurrency ∧ s.globalConcurrency ≤ claimedCount s group)) :
    globalFull (s.deliver group consumer e) group e.id = false := by
  unfold claimedCount Stream.pendingCount at hgate
  have hpel : ((s.deliver group consumer e).stream.groups group).pel =
      (s.stream.groups group).pel ++ [⟨e.id, consumer⟩] := by
    simp [Stream.deliver, Stream.setGroup]
  unfold globalFull
  simp only [hpel, List.length_append, List.length_singleton]
  by_cases hpos : 0 < s.globalConcurrency
  · have hroom : ¬ s.globalConcurrency - s.listActive ≤ 0 := by omega
    have hrank : ¬ s.globalConcurrency - s.listActive <
        (((s.stream.groups group).pel.length + 1 : Nat) : Int) := by omega
    simp only [deliver_globalConcurrency, deliver_listActive, hroom, hrank, decide_false,
      Bool.false_and, Bool.false_or, Bool.and_false]
  · simp only [deliver_globalConcurrency, hpos, decide_false, Bool.false_and]

/-- Both calls on an entry, after it is delivered. -/
theorem claimEntry_eq {s : Queue} {a : FetchArgs} {e : Entry JobEntry} {globalGate : Bool} {job : Job}
    (hpaused : s.paused = false)
    (hgate : ¬ (0 < s.globalConcurrency ∧ s.globalConcurrency ≤ claimedCount s a.group))
    (hj : s.jobs e.val.jobId = some job) :
    claimEntry s a e globalGate =
      let t := s.deliver a.group a.consumer e
      if ¬ isActivatable job.state then (ackDel t a.group (some e.id), .stale)
      else if job.revoked then (t, .revoked)
      else if isExpired job a.timestamp then
        (ackDel (expireJob t e.val.jobId a.timestamp a.serverNow job.state job.orderingKey
          (some job.orderingSeq) job.groupKey) a.group (some e.id), .expired)
      else
        match job.groupKey with
        | some gk => claimInGroup t (a.move e.val.jobId e.id globalGate) gk
        | none =>
          (activate t e.val.jobId a.timestamp false,
            .active (claimedFields job a.timestamp)) := by
  have hfull := globalFull_of_gate a.consumer e hgate
  have hdelivered : (s.deliver a.group a.consumer e).jobs e.val.jobId = some job := hj
  have hnotpaused : (s.deliver a.group a.consumer e).paused = false := hpaused
  unfold claimEntry moveToActive moveToActiveClaim FetchArgs.move
  cases hgroup : job.groupKey <;>
    simp only [hdelivered, hnotpaused, hfull, hgroup, Option.mem_def, Option.some.injEq, exists_eq_left',
      Bool.false_eq_true, and_false, if_false, reduceCtorEq, Option.isNone_some, Prod.mk.eta]

theorem expireJob_hints {s : Queue} {J : JobId} {job : Job} (hj : s.jobs J = some job) (now serverNow : Int)
    (hst : job.state ≠ some .active) :
    expireJob s J now serverNow job.state none none none =
      expireJob s J now serverNow job.state job.orderingKey (some job.orderingSeq) job.groupKey := by
  have hmark (q : Queue) (hq : q.job J = { job with
      state := some .failed, failedReason := some "expired", finishedOn := some now }) :
      markOrderingDone q J none none = markOrderingDone q J job.orderingKey (some job.orderingSeq) := by
    unfold markOrderingDone
    simp only [getD_jobs, hq]
    cases job.orderingKey <;> simp
  unfold expireJob
  split
  · rfl
  · simp only
    rw [hmark]
    have hcore : (advanceRepeatAfterComplete ((s.zaddFailed J now).setFailed J "expired" now) J now).jobs =
        ((s.zaddFailed J now).setFailed J "expired" now).jobs := by
      unfold advanceRepeatAfterComplete
      repeat' split
      all_goals rfl
    unfold Queue.job
    rw [hcore]
    simp [setFailed, hj]

theorem sameOutcome_of_blank {s : Queue} {J : JobId} {r : Queue × Option ChainNext}
    {r' : Queue × ActivationResult} (h : r.1.blank true = r'.1.blank true)
    (htreatment : chainTreatment s r J = r'.2.treatment) : SameOutcome s J r r' :=
  ⟨htreatment, jobs_of_blank h, groups_of_blank h, groupq_of_blank h,
    key_of_blank Queue.ratelimited (fun _ => rfl) h⟩

theorem fetchEntry_eq {s : Queue} {e : Entry JobEntry} {job : Job} (hj : s.jobs e.val.jobId = some job)
    (a : FetchArgs) :
    fetchEntry s a e =
      let t := s.deliver a.group a.consumer e
      let J := e.val.jobId
      if job.state = none then (t, some .none)
      else if job.revoked then (t, some (.revoked J e.id))
      else if ¬ isActivatable job.state then (ackDel t a.group (some e.id), none)
      else if isExpired job a.timestamp then
        (ackDel (expireJob t J a.timestamp a.serverNow job.state none none none) a.group (some e.id),
          none)
      else
        match job.groupKey with
        | some gk => ((fetchStreamInGroup t a J e.id gk).1, some (fetchStreamInGroup t a J e.id gk).2)
        | none => ((activateFromStream t J e.id a.timestamp).1,
            some (activateFromStream t J e.id a.timestamp).2) := by
  have hjob : (s.deliver a.group a.consumer e).job e.val.jobId = job := by
    simp [Queue.job, hj]
  unfold fetchEntry
  simp only [hjob]

theorem claimEntry_treatment {s : Queue} {a : FetchArgs} {e : Entry JobEntry} (globalGate : Bool)
    (hpaused : s.paused = false)
    (hgate : ¬ (0 < s.globalConcurrency ∧ s.globalConcurrency ≤ claimedCount s a.group))
    (hj : s.jobs e.val.jobId ≠ none) : (claimEntry s a e globalGate).2.treatment ≠ .nothing := by
  obtain ⟨job, hj⟩ := Option.ne_none_iff_exists'.mp hj
  rw [claimEntry_eq hpaused hgate hj]
  simp only
  split
  · simp [ActivationResult.treatment]
  split
  · simp [ActivationResult.treatment]
  split
  · simp [ActivationResult.treatment]
  split
  · exact claimInGroup_treatment _ _ _
  · simp [ActivationResult.treatment]

section

variable {s : Queue} {a : FetchArgs} {e : Entry JobEntry} {job : Job}

theorem unactivatable_agrees_iff {t : Queue} (hd : s.deliver a.group a.consumer e = t)
    (hj : s.jobs e.val.jobId = some job) (hnone : job.state ≠ none) (hact : ¬ isActivatable job.state) :
    SameOutcome s e.val.jobId
        (if job.revoked then (t, some (.revoked e.val.jobId e.id)) else (ackDel t a.group (some e.id), none))
        (ackDel t a.group (some e.id), .stale) ↔ AgreesWhen s a e.val.jobId := by
  -- The job cannot be activated: the two look for the flag and the state in another order.
  have hjob : s.job e.val.jobId = job := by simp [Queue.job, hj]
  constructor
  · intro h
    refine ⟨by rwa [hjob], fun hrev => ?_, fun gk _ hgates _ => absurd (hjob ▸ hgates.1) hact⟩
    rw [hjob] at hrev
    have htreatment := h.treatment
    rw [if_pos hrev] at htreatment
    simp [chainTreatment, ActivationResult.treatment] at htreatment
  · intro h
    have hrev : ¬ job.revoked := fun hrev => hact (hjob ▸ h.revoked (by rwa [hjob]))
    rw [if_neg hrev]
    refine sameOutcome_of_blank rfl ?_
    have hack : (ackDel t a.group (some e.id)).stateOf e.val.jobId = s.stateOf e.val.jobId := by
      rw [← hd]
      rfl
    simp [chainTreatment, ActivationResult.treatment, hack]

theorem expired_agrees {t : Queue} (hd : s.deliver a.group a.consumer e = t)
    (hj : s.jobs e.val.jobId = some job) (hact : isActivatable job.state) :
    SameOutcome s e.val.jobId
      (ackDel (expireJob t e.val.jobId a.timestamp a.serverNow job.state none none none) a.group (some e.id), none)
      (ackDel (expireJob t e.val.jobId a.timestamp a.serverNow job.state job.orderingKey (some job.orderingSeq)
        job.groupKey) a.group (some e.id), .expired) := by
  -- Both calls expire the job, with the hints of the hash or without.
  have htj : t.jobs e.val.jobId = some job := by
    rw [← hd]
    exact hj
  have hne : job.state ≠ some .active ∧ job.state ≠ some .failed := by
    constructor <;> intro hst <;> simp [hst, isActivatable] at hact
  rw [← expireJob_hints htj a.timestamp a.serverNow hne.1]
  refine sameOutcome_of_blank rfl ?_
  have hfailed : (ackDel (expireJob t e.val.jobId a.timestamp a.serverNow job.state none none none)
      a.group (some e.id)).stateOf e.val.jobId = some .failed := by
    have hstate : t.stateOf e.val.jobId = job.state := by simp [Queue.stateOf, htj]
    rw [← hstate]
    exact stateOf_expireJob t a.timestamp a.serverNow none none none
  have hbefore : s.stateOf e.val.jobId = job.state := by simp [Queue.stateOf, hj]
  simp [chainTreatment, ActivationResult.treatment, hfailed, hbefore, hne.2.symm]

theorem inGroup_agrees_iff {t : Queue} (hd : s.deliver a.group a.consumer e = t)
    (hj : s.jobs e.val.jobId = some job) (hnone : job.state ≠ none) (hact : isActivatable job.state)
    (hrev : ¬ job.revoked) (hexp : ¬ isExpired job a.timestamp) {gk : GroupKey} (hkey : job.groupKey = some gk)
    (globalGate : Bool) :
    SameOutcome s e.val.jobId
        ((fetchStreamInGroup t a e.val.jobId e.id gk).1, some (fetchStreamInGroup t a e.val.jobId e.id gk).2)
        (claimInGroup t (a.move e.val.jobId e.id globalGate) gk) ↔ AgreesWhen s a e.val.jobId := by
  have hjob : s.job e.val.jobId = job := by simp [Queue.job, hj]
  have hreturns : Returns t e.val.jobId gk ↔ Returns s e.val.jobId gk := by
    rw [← hd]
    exact Iff.rfl
  have hlimited : Limited t e.val.jobId gk a.timestamp a.serverNow ↔
      Limited s e.val.jobId gk a.timestamp a.serverNow := by
    rw [← hd]
    exact Iff.rfl
  have hgroupq : t.groupq = s.groupq := by
    rw [← hd]
    rfl
  have hgates : ReachesGates s e.val.jobId a.timestamp := by
    unfold ReachesGates
    rw [hjob]
    exact ⟨hact, hrev, hexp⟩
  constructor
  · intro h
    refine ⟨by rwa [hjob], fun h => absurd (hjob ▸ h) hrev, fun gk' hgk' _ hret => ?_⟩
    rw [hjob, hkey] at hgk'
    cases hgk'
    by_contra hnot
    refine inGroup_disagrees globalGate (hreturns.mpr hret) ?_ h.treatment h.groupq
    rw [hlimited, hgroupq]
    tauto
  · intro h
    obtain ⟨hblank, htreatment⟩ := inGroup_agrees (s := t) (t := s) (a := a) (e := e.id) globalGate
      fun hret => by
        rw [hlimited, hgroupq]
        exact h.returning gk (by rw [hjob, hkey]) hgates (hreturns.mp hret)
    exact sameOutcome_of_blank hblank htreatment

theorem chain_agrees_iff (globalGate : Bool) (hpaused : s.paused = false)
    (hgate : ¬ (0 < s.globalConcurrency ∧ s.globalConcurrency ≤ claimedCount s a.group))
    (hj : s.jobs e.val.jobId ≠ none) :
    Agrees s a e globalGate ↔ AgreesWhen s a e.val.jobId := by
  have hsome := claimEntry_treatment globalGate hpaused hgate hj
  obtain ⟨job, hj⟩ := Option.ne_none_iff_exists'.mp hj
  have hjob : s.job e.val.jobId = job := by simp [Queue.job, hj]
  unfold Agrees
  rw [claimEntry_eq hpaused hgate hj] at hsome ⊢
  rw [fetchEntry_eq hj]
  simp only at hsome ⊢
  generalize hd : s.deliver a.group a.consumer e = t at *
  have hstate : t.stateOf e.val.jobId = job.state := by
    rw [← hd]
    simp [Queue.stateOf, hj]
  by_cases hnone : job.state = none
  · -- the chain call passes over a hash without a state
    rw [if_pos hnone]
    refine ⟨fun h => absurd ?_ hsome, fun h => absurd (hjob ▸ hnone) h.state⟩
    rw [← h.treatment]
    simp [chainTreatment, hstate, hnone]
  rw [if_neg hnone]
  have hstate' : (s.job e.val.jobId).state ≠ none := by rwa [hjob]
  by_cases hact : isActivatable job.state
  swap
  · rw [if_pos hact, if_pos hact]
    exact unactivatable_agrees_iff hd hj hnone hact
  rw [if_neg (not_not.mpr hact), if_neg (not_not.mpr hact)]
  by_cases hrev : job.revoked
  · rw [if_pos hrev, if_pos hrev]
    refine ⟨fun _ => ⟨hstate', fun _ => by rwa [hjob], ?_⟩, fun _ => sameOutcome_of_blank rfl rfl⟩
    exact fun gk _ hgates _ => absurd (hjob ▸ hrev) hgates.2.1
  rw [if_neg hrev, if_neg hrev]
  have hrev' : (s.job e.val.jobId).revoked → isActivatable (s.job e.val.jobId).state :=
    fun h => absurd (hjob ▸ h) hrev
  by_cases hexp : isExpired job a.timestamp
  · rw [if_pos hexp, if_pos hexp]
    exact ⟨fun _ => ⟨hstate', hrev', fun gk _ hgates _ => absurd (hjob ▸ hexp) hgates.2.2⟩,
      fun _ => expired_agrees hd hj hact⟩
  rw [if_neg hexp, if_neg hexp]
  cases hkey : job.groupKey with
  | none =>
    refine ⟨fun _ => ⟨hstate', hrev', fun gk hgk => ?_⟩, fun _ => sameOutcome_of_blank rfl rfl⟩
    rw [hjob, hkey] at hgk
    cases hgk
  | some gk => exact inGroup_agrees_iff hd hj hnone hact hrev hexp hkey globalGate

end

/-- A step job that comes back while its group's window is full. -/
def backInFullWindow : Queue :=
  [Call.addJob
      { timestamp := 1000, serverNow := 1000, orderingKey := some "k", customJobId := some "a",
        group := { concurrency := 1, rateMax := 1, rateDuration := 1000 } },
    .readGroup "workers" "w",
    .moveToActive
      { jobId := "a", entryId := some 1, group := "workers", timestamp := 1000, serverNow := 1000 },
    .moveActiveToDelayed
      { jobId := "a", entryId := some 1, group := "workers", now := 1010, serverNow := 1010 } 1020,
    .promote 1030 1030].foldl Call.run { name := "q" }

/-- The entry of its return. -/
def backEntry : Entry JobEntry := ⟨2, ⟨"a", none⟩⟩

def fetchAt (now : Int) : FetchArgs :=
  { group := "workers", consumer := "w", timestamp := now, serverNow := now }

theorem chain_disagrees_in_full_window :
    backInFullWindow.paused = false ∧ backInFullWindow.globalConcurrency = 0 ∧
      backInFullWindow.stream.next? "workers" = some backEntry ∧
      (backInFullWindow.jobs "a").isSome ∧
      chainTreatment backInFullWindow (fetchEntry backInFullWindow (fetchAt 1100) backEntry) "a" = .park ∧
      (claimEntry backInFullWindow (fetchAt 1100) backEntry true).2.treatment = .activate ∧
      ¬ Agrees backInFullWindow (fetchAt 1100) backEntry true := by
  refine ⟨by decide, by decide, by decide, by decide, by decide, by decide, fun h => ?_⟩
  have htreatment := h.treatment
  revert htreatment
  decide

/-- Once the window is over the two agree. -/
theorem chain_agrees_after_window : Agrees backInFullWindow (fetchAt 2100) backEntry true := by
  refine (chain_agrees_iff true (by decide) (by decide) (by decide)).mpr ⟨by decide, by decide, ?_⟩
  intro gk hgk _ _
  have hkey : gk = "k" := by
    have : (backInFullWindow.job "a").groupKey = some "k" := by decide
    exact Option.some.inj (hgk.symm.trans this)
  subst hkey
  unfold Limited
  decide

end GlideMq
