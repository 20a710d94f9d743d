import GlideMq.Proofs.ChainVars
import GlideMq.Proofs.GroupSteps
import GlideMq.Proofs.ParentFrame

/-!
# Completing in a chain call

`completeAndFetchNext` completes the job from hints. With hints that match the job's hash, and
nothing to fetch, it does what `complete` does.
-/

namespace GlideMq

open Queue Redis

/-! ## Keys that the end of a completion leaves alone -/

/-- The queue with the chain's variables and the list claims of another. -/
def Queue.graft (s u : Queue) : Queue :=
  { s with
    activationFailures := u.activationFailures
    chainListsEmpty := u.chainListsEmpty
    listActive := u.listActive
    listActiveIds := u.listActiveIds
    listClaims := u.listClaims }

section

variable (s u : Queue)

theorem graft_retain (k : TerminalSet) (J : JobId) (r : Retention) (timestamp : Int) :
    retain (s.graft u) k J r timestamp = (retain s k J r timestamp).graft u := by
  have hunlink (l : List JobId) (q : Queue) :
      l.foldl unlinkJob (q.graft u) = (l.foldl unlinkJob q).graft u := by
    induction l generalizing q with
    | nil => rfl
    | cons K l ih => exact ih (q.unlinkJob K)
  have hrem (l : List JobId) (q : Queue) :
      l.foldl (fun q K => q.zremTerminal k K) (q.graft u) =
        (l.foldl (fun q K => q.zremTerminal k K) q).graft u := by
    induction l generalizing q with
    | nil => rfl
    | cons K l ih =>
      have hone : (q.graft u).zremTerminal k K = (q.zremTerminal k K).graft u := by cases k <;> rfl
      simp only [List.foldl_cons, hone]
      exact ih (q.zremTerminal k K)
  have hremove (q : Queue) (ids : List JobId) :
      removeExcessJobs (q.graft u) k ids = (removeExcessJobs q k ids).graft u := by
    unfold removeExcessJobs
    rw [hunlink, hrem]
  have hset (q : Queue) : (q.graft u).terminalSet k = q.terminalSet k := by cases k <;> rfl
  have hcount (q : Queue) (n : Nat) : retainCount (q.graft u) k n = (retainCount q k n).graft u := by
    unfold retainCount
    simp only [hset, hremove]
    split <;> rfl
  unfold retain
  cases r with
  | keep => rfl
  | remove => rfl
  | count n => exact hcount s n
  | ageCount age n =>
    have hage : retainAge (s.graft u) k age timestamp = (retainAge s k age timestamp).graft u := by
      unfold retainAge
      simp only [hset, hremove]
      split <;> rfl
    simp only [hage]
    exact hcount _ n

theorem graft_notifyParent (q : Option QueueName) (p : Option JobId) (ns : List ParentNotify)
    (J : JobId) :
    notifyParent q p (s.graft u, ns) J =
      ((notifyParent q p (s, ns) J).1.graft u, (notifyParent q p (s, ns) J).2) := by
  unfold notifyParent enqueueCrossQueueParentNotify
  cases q with
  | none => rfl
  | some q =>
    cases p with
    | none => rfl
    | some p =>
      have hname : (s.graft u).name = s.name := rfl
      simp only [hname]
      split <;> rfl

theorem graft_enqueueTreeParentNotifies (J : JobId) (q : Option QueueName) (p : Option JobId)
    (ids : List JobId) :
    enqueueTreeParentNotifies (s.graft u) J q p ids =
      ((enqueueTreeParentNotifies s J q p ids).1.graft u,
        (enqueueTreeParentNotifies s J q p ids).2) := by
  have hfold (l : List JobId) (r : Queue × List ParentNotify) :
      l.foldl (notifyParent q p) (r.1.graft u, r.2) =
        ((l.foldl (notifyParent q p) r).1.graft u, (l.foldl (notifyParent q p) r).2) := by
    induction l generalizing r with
    | nil => rfl
    | cons K l ih =>
      rw [List.foldl_cons, graft_notifyParent]
      exact ih (notifyParent q p r K)
  exact hfold (J :: ids) (s, [])

theorem graft_completeParentDependency (P : JobId) (m : DepMember) :
    completeParentDependency (s.graft u) P m =
      ((completeParentDependency s P m).1.graft u, (completeParentDependency s P m).2) := by
  have hjob (K : JobId) : (s.graft u).job K = s.job K := rfl
  have hearly : countEarlyDeps (s.graft u) P =
      ((countEarlyDeps s P).1.graft u, (countEarlyDeps s P).2) := by
    unfold countEarlyDeps
    simp only [hjob]
    split <;> rfl
  have hpark : parkEarly (s.graft u) P m = (parkEarly s P m).graft u := by
    unfold parkEarly
    simp only [hjob]
    split <;> rfl
  have hrelease (q : Queue) : releaseParentIfReady (q.graft u) P =
      ((releaseParentIfReady q P).1.graft u, (releaseParentIfReady q P).2) := by
    have hremaining : remainingDeps (q.graft u) P = remainingDeps q P := rfl
    have hstate : (q.graft u).stateOf P = q.stateOf P := rfl
    unfold releaseParentIfReady
    simp only [hremaining, hstate]
    split <;> rfl
  have hjobs : (s.graft u).jobs = s.jobs := rfl
  have hdeps : (s.graft u).deps = s.deps := rfl
  unfold completeParentDependency
  simp only [hearly, hpark, hjobs, hdeps]
  have hjob' (K : JobId) : ((countEarlyDeps s P).1.graft u).job K = (countEarlyDeps s P).1.job K := rfl
  have hmark : ((countEarlyDeps s P).1.graft u).hmod P (·.markDone m) =
      ((countEarlyDeps s P).1.hmod P (·.markDone m)).graft u := rfl
  simp only [hjob', hmark, hrelease]
  split
  · rfl
  split
  · rfl
  split <;> rfl

theorem graft_completeParents (J : JobId) (q : Option QueueName) (p : Option JobId)
    (ns : List ParentNotify) :
    completeParents (s.graft u) J q p ns =
      ((completeParents s J q p ns).1.graft u, (completeParents s J q p ns).2) := by
  have hfold (l : List DepMember) (r : Queue × List ParentNotify) :
      l.foldl (resolveDagParent J) (r.1.graft u, r.2) =
        ((l.foldl (resolveDagParent J) r).1.graft u, (l.foldl (resolveDagParent J) r).2) := by
    induction l generalizing r with
    | nil => rfl
    | cons d l ih =>
      have hone : resolveDagParent J (r.1.graft u, r.2) d =
          ((resolveDagParent J r d).1.graft u, (resolveDagParent J r d).2) := by
        have hname : (r.1.graft u).name = r.1.name := rfl
        unfold resolveDagParent
        simp only [hname, graft_completeParentDependency, graft_notifyParent]
        split <;> rfl
      rw [List.foldl_cons, hone]
      exact ih (resolveDagParent J r d)
  unfold completeParents
  simp only
  have hname : (s.graft u).name = s.name := rfl
  have hparents (x : Queue) : (x.graft u).parents = x.parents := rfl
  cases p with
  | none => exact hfold (s.parents J) (s, ns)
  | some p =>
    simp only [hname, graft_completeParentDependency]
    split
    · exact hfold _ ((completeParentDependency s p ⟨s.name, J⟩).1, ns)
    · exact hfold (s.parents J) (s, ns)

theorem graft_settleListClaim (J : JobId) (e : Option Nat) :
    settleListClaim (s.graft u) J e = s.graft (settleListClaim u J e) := by
  unfold settleListClaim
  split
  · unfold decrListActive
    have hactive : ((s.graft u).sremListActiveIds J).listActive = (u.sremListActiveIds J).listActive :=
      rfl
    simp only [hactive]
    split <;> rfl
  · rfl

end

theorem blank_settleListClaim {m : Bool} {s t : Queue} (h : t.blank m = s.blank m) (J : JobId)
    (e : Option Nat) : (settleListClaim t J e).blank m = (settleListClaim s J e).blank m := by
  refine blank_congr (f := (settleListClaim · J e)) (fun q => ?_) h
  unfold settleListClaim decrListActive
  have hactive : ((q.blank m).sremListActiveIds J).listActive = (q.sremListActiveIds J).listActive := rfl
  simp only [hactive]
  repeat' split
  all_goals cases m <;> rfl

theorem eq_graft_of_blank {s t : Queue} (h : t.blank false = s.blank false) : t = s.graft t := by
  have hself : (t.blank false).graft t = t := rfl
  rw [← hself, h]
  rfl

theorem blank_graft {s t u : Queue} (h : t.blank false = s.blank false) :
    (u.graft t).blank false = (u.graft s).blank false := by
  have hactive : t.listActive = s.listActive := key_of_blank Queue.listActive (fun _ => rfl) h
  have hids : t.listActiveIds = s.listActiveIds := key_of_blank Queue.listActiveIds (fun _ => rfl) h
  have hclaims : t.listClaims = s.listClaims := key_of_blank Queue.listClaims (fun _ => rfl) h
  unfold Queue.graft Queue.blank
  simp only [hactive, hids, hclaims]

/-! ## Hints -/

/-- A hint that says what the hash holds. -/
def Hint.Matches {α : Type} (h : Hint α) : Option α → Prop
  | none => h = .absent
  | some v => h = .is v

structure CompleteNextArgs.Matches (a : CompleteNextArgs) (j : Job) : Prop where
  orderingKey : a.orderingKey.Matches j.orderingKey
  groupKey : a.groupKey.Matches j.groupKey
  orderingSeq : ∀ n ∈ a.orderingSeq, n = j.orderingSeq
  processedOn : ∀ x ∈ a.processedOn, j.processedOn = some x

theorem markDoneByHints_eq {s : Queue} {a : CompleteNextArgs} (h : a.Matches (s.job a.jobId)) :
    markDoneByHints s a = markOrderingDone s a.jobId none none := by
  have hseq : a.orderingSeq.getD (s.job a.jobId).orderingSeq = (s.job a.jobId).orderingSeq := by
    cases hn : a.orderingSeq with
    | none => rfl
    | some n => exact h.orderingSeq n hn
  have hkey := h.orderingKey
  have hgroup := h.groupKey
  unfold markDoneByHints markOrderingDone
  simp only [getD_jobs, hseq]
  unfold Hint.Matches at hkey hgroup
  cases hk : (s.job a.jobId).orderingKey with
  | some k =>
    rw [hk] at hkey
    have hread : a.orderingKey = .is k := hkey
    rw [if_pos (by rw [hread]; exact nofun), hread]
    rfl
  | none =>
    rw [hk] at hkey
    have habsent : a.orderingKey = .absent := hkey
    rw [if_neg (by rw [habsent]; exact fun hne => hne rfl)]
    cases hg : (s.job a.jobId).groupKey with
    | some g =>
      rw [hg] at hgroup
      have hread : a.groupKey = .is g := hgroup
      rw [if_pos (by rw [hread]; exact nofun), hread]
      rfl
    | none =>
      rw [hg] at hgroup
      have hnone : a.groupKey = .absent := hgroup
      rw [if_neg (by rw [hnone]; exact fun hne => hne rfl)]
      rfl

theorem releaseByHint_eq {s : Queue} {h : Hint GroupKey} {J : JobId} (hm : h.Matches (s.job J).groupKey)
    (now serverNow : Int) :
    (if h ≠ .absent then releaseGroupSlotAndPromote s J now serverNow h.value false else s) =
      releaseGroupSlotAndPromote s J now serverNow none false := by
  unfold Hint.Matches at hm
  unfold releaseGroupSlotAndPromote
  cases hg : (s.job J).groupKey with
  | some g =>
    rw [hg] at hm
    simp only at hm
    simp [hm, Hint.value]
  | none =>
    rw [hg] at hm
    simp only at hm
    simp [hm]

/-! ## The completion -/

/-- The part of a completion before the slot is given back. -/
def beforeRelease (s : Queue) (a : CompleteArgs) : Queue :=
  markOrderingDone (markCompleted (ackDel s a.group a.entryId) a.jobId a.retention a.timestamp)
    a.jobId none none

theorem blank_beforeRelease {s t : Queue} (h : t.blank false = s.blank false) (a : CompleteArgs) :
    (beforeRelease t a).blank false = (beforeRelease s a).blank false := by
  have hack := blank_ackDel h a.group a.entryId
  unfold beforeRelease
  refine blank_markOrderingDone ?_ a.jobId none none
  unfold markCompleted
  split
  · exact hack
  · refine blank_hset ?_ a.jobId _
    exact blank_congr (f := (zaddCompleted · a.jobId a.timestamp)) (fun _ => rfl) hack

theorem job_markCompleted {α : Type} (f : Job → α)
    (hf : ∀ (j : Job) y, f { j with state := some .completed, finishedOn := some y } = f j)
    (s : Queue) (a : CompleteArgs) :
    f ((markCompleted (ackDel s a.group a.entryId) a.jobId a.retention a.timestamp).job a.jobId) =
      f (s.job a.jobId) := by
  have hjobs : (ackDel s a.group a.entryId).jobs = s.jobs := by cases a.entryId <;> rfl
  unfold markCompleted Queue.job
  split
  · rw [hjobs]
  · simp only [setCompleted, hset_jobs, zaddCompleted_jobs, hjobs, Function.update_self,
      Option.getD_some]
    exact hf _ _

/-- The writes up to the parents, in the order of `complete`. -/
def releaseAndRecord (s : Queue) (a : CompleteArgs) (processedOn : Int) : Queue :=
  let s := releaseGroupSlotAndPromote s a.jobId a.timestamp a.serverNow none false
  if a.skipMetrics then s else recordCompleted s a.timestamp (a.timestamp - processedOn)

theorem blank_releaseAndRecord {s t : Queue} (h : t.blank false = s.blank false) (a : CompleteArgs)
    (p : Int) : (releaseAndRecord t a p).blank false = (releaseAndRecord s a p).blank false := by
  have hrelease := blank_releaseGroupSlotAndPromote h a.jobId a.timestamp a.serverNow none false
  unfold releaseAndRecord
  simp only
  split
  · exact hrelease
  · exact blank_congr (f := (recordCompleted · a.timestamp (a.timestamp - p))) (fun _ => rfl) hrelease

theorem writes_of_hints {s : Queue} {a : CompleteNextArgs} (h : a.Matches (s.job a.jobId)) (p : Int) :
    (let v := markDoneByHints
        (markCompleted (ackDel s a.group a.entryId) a.jobId a.retention a.timestamp) a
      let v :=
        if a.groupKey ≠ .absent then
          releaseGroupSlotAndPromote v a.jobId a.timestamp a.serverNow a.groupKey.value false
        else v
      if a.skipMetrics then v else recordCompleted v a.timestamp (a.timestamp - p)) =
      releaseAndRecord (beforeRelease s a.toCompleteArgs) a.toCompleteArgs p := by
  have hkey := job_markCompleted Job.orderingKey (fun _ _ => rfl) s a.toCompleteArgs
  have hgroup := job_markCompleted Job.groupKey (fun _ _ => rfl) s a.toCompleteArgs
  have hseq := job_markCompleted Job.orderingSeq (fun _ _ => rfl) s a.toCompleteArgs
  have hprocessed := job_markCompleted Job.processedOn (fun _ _ => rfl) s a.toCompleteArgs
  have hmarked : a.Matches
      ((markCompleted (ackDel s a.group a.entryId) a.jobId a.retention a.timestamp).job a.jobId) :=
    ⟨hkey ▸ h.orderingKey, hgroup ▸ h.groupKey, hseq ▸ h.orderingSeq, hprocessed ▸ h.processedOn⟩
  have hdone := markDoneByHints_eq hmarked
  have hslot : a.groupKey.Matches ((beforeRelease s a.toCompleteArgs).job a.jobId).groupKey := by
    have hjob : (beforeRelease s a.toCompleteArgs).job a.jobId =
        (markCompleted (ackDel s a.group a.entryId) a.jobId a.retention a.timestamp).job a.jobId := by
      unfold beforeRelease
      unfold Queue.job
      rw [markOrderingDone_jobs]
    rw [hjob]
    exact hmarked.groupKey
  have hrelease := releaseByHint_eq hslot a.timestamp a.serverNow
  simp only [hdone]
  unfold releaseAndRecord
  rw [← hrelease]
  rfl

/-! ## The chain call -/

/-- There is nothing that the chain call could fetch: the gate is closed, or the lists are empty
and the group has read the stream to its end. -/
def NothingToFetch (s : Queue) (group : Group) : Prop :=
  (0 < s.globalConcurrency ∧ s.globalConcurrency ≤ claimedCount s group) ∨
    (s.priorityList = [] ∧ s.lifoList = [] ∧ s.stream.next? group = none)

theorem fetchNextForChain_nothing {s : Queue} {a : FetchArgs} (h : NothingToFetch s a.group) :
    (fetchNextForChain s a).1.blank false = s.blank false := by
  unfold fetchNextForChain
  split
  · rfl
  · rename_i hopen
    rcases h with hclosed | ⟨hpriority, hlifo, hstream⟩
    · exact absurd hclosed hopen
    · have hp : listPhase .priority (fetchPriority · a) 3 s = (s, none, true) := by
        unfold listPhase
        have hlist : s.list .priority = [] := hpriority
        simp only [hlist, List.getLast?_nil]
      have hl : listPhase .lifo (fetchLifo · a) 3 s = (s, none, true) := by
        unfold listPhase
        have hlist : s.list .lifo = [] := hlifo
        simp only [hlist, List.getLast?_nil]
      simp only [hp, hl]
      unfold fetchStream streamPhase
      simp only [hstream]
      rfl

/-- A completion in a chain call and `complete` on the same job. -/
theorem completeInChain_refines {s : Queue} {a : CompleteNextArgs} (h : a.Matches (s.job a.jobId))
    (hstate : (s.job a.jobId).state ≠ none) (hrevoked : (s.job a.jobId).revoked = false) :
    ∃ v ns, complete s a.toCompleteArgs = (v, some ns) ∧
      (completeInChain (ackDel (beginChain s) a.group a.entryId) a (s.job a.jobId)).1.blank false =
        v.blank false ∧
      (completeInChain (ackDel (beginChain s) a.group a.entryId) a (s.job a.jobId)).2 = ns := by
  have hprocessed : a.processedOn.getD ((s.job a.jobId).processedOn.getD a.timestamp) =
      (s.job a.jobId).processedOn.getD a.timestamp := by
    cases hx : a.processedOn with
    | none => rfl
    | some x =>
      rw [h.processedOn x hx]
      rfl
  have hbegin : a.Matches ((beginChain s).job a.jobId) := h
  have hwrites := writes_of_hints hbegin ((s.job a.jobId).processedOn.getD a.timestamp)
  simp only at hwrites
  let u := releaseAndRecord (beforeRelease s a.toCompleteArgs) a.toCompleteArgs
    ((s.job a.jobId).processedOn.getD a.timestamp)
  let v := releaseAndRecord (beforeRelease (beginChain s) a.toCompleteArgs) a.toCompleteArgs
    ((s.job a.jobId).processedOn.getD a.timestamp)
  have hblank : v.blank false = u.blank false :=
    blank_releaseAndRecord (blank_beforeRelease (blank_beginChain false s) a.toCompleteArgs) _ _
  have hgraft : v = u.graft v := eq_graft_of_blank hblank
  let n := enqueueTreeParentNotifies u a.jobId (s.job a.jobId).parentQueue (s.job a.jobId).parentId
    (s.job a.jobId).replacedIds
  let w := retain n.1 .completed a.jobId a.retention a.timestamp
  let c := completeParents w a.jobId (s.job a.jobId).parentQueue (s.job a.jobId).parentId n.2
  -- The parents do not see the list claims, so the settlement may come before them or after.
  have hchain : completeInChain (ackDel (beginChain s) a.group a.entryId) a (s.job a.jobId) =
      (c.1.graft (settleListClaim v a.jobId a.entryId), c.2) := by
    unfold completeInChain
    simp only [hprocessed, hwrites]
    change completeParents (retain (settleListClaim
      (enqueueTreeParentNotifies v a.jobId (s.job a.jobId).parentQueue (s.job a.jobId).parentId
        (s.job a.jobId).replacedIds).1 a.jobId a.entryId) .completed a.jobId a.retention a.timestamp)
      a.jobId (s.job a.jobId).parentQueue (s.job a.jobId).parentId
      (enqueueTreeParentNotifies v a.jobId (s.job a.jobId).parentQueue (s.job a.jobId).parentId
        (s.job a.jobId).replacedIds).2 = _
    rw [hgraft, graft_enqueueTreeParentNotifies, ← hgraft, graft_settleListClaim, graft_retain,
      graft_completeParents]
  have hown : c.1 = c.1.graft u := by
    have hn : n = (n.1.graft u, n.2) := graft_enqueueTreeParentNotifies u u a.jobId _ _ _
    have hw : w = w.graft u := by
      change retain n.1 .completed a.jobId a.retention a.timestamp = _
      rw [hn, graft_retain]
    have hc : completeParents w a.jobId (s.job a.jobId).parentQueue (s.job a.jobId).parentId n.2 =
        (c.1.graft u, c.2) := by
      rw [hw, graft_completeParents]
    exact congrArg Prod.fst hc
  have hplain : settleListClaim c.1 a.jobId a.entryId =
      c.1.graft (settleListClaim u a.jobId a.entryId) := by
    rw [hown, graft_settleListClaim, ← hown]
  refine ⟨settleListClaim c.1 a.jobId a.entryId, c.2, ?_, ?_, ?_⟩
  · unfold complete
    simp only [hrevoked, Bool.false_eq_true, if_false, hstate]
    rfl
  · rw [hchain, hplain]
    exact blank_graft (blank_settleListClaim hblank a.jobId a.entryId)
  · rw [hchain]

/-- The end of a chain call: the fetch and the reply. -/
def fetchAndReply (s : Queue) (a : FetchArgs) (ns : List ParentNotify) : Queue × ChainReply :=
  let r := if s.paused then (s, .none) else fetchNextForChain s a
  finishChainReply r.1 r.2 ns

theorem blank_fetchAndReply {s : Queue} {a : FetchArgs} (ns : List ParentNotify)
    (h : s.paused ∨ NothingToFetch s a.group) :
    (fetchAndReply s a ns).1.blank false = s.blank false := by
  unfold fetchAndReply
  simp only
  split
  · rfl
  · rename_i hrunning
    have hnothing : NothingToFetch s a.group := by
      rcases h with hpaused | hnothing
      · exact absurd hpaused hrunning
      · exact hnothing
    exact fetchNextForChain_nothing hnothing

/-- With hints that match the hash, a chain call with nothing to fetch leaves what `complete`
leaves, up to the variables of the call, and sends the same parent notifications. -/
theorem completeAndFetchNext_refines_complete (s : Queue) (a : CompleteNextArgs)
    (hmatch : a.Matches (s.job a.jobId))
    (hquiet : (complete s a.toCompleteArgs).1.paused ∨
      NothingToFetch (complete s a.toCompleteArgs).1 a.group) :
    (completeAndFetchNext s a).1.blank false = (complete s a.toCompleteArgs).1.blank false ∧
      (completeAndFetchNext s a).2.map (·.notifications) = (complete s a.toCompleteArgs).2 := by
  cases hrevoked : (s.job a.jobId).revoked with
  | true =>
    unfold completeAndFetchNext complete
    simp only [hrevoked, if_true]
    exact ⟨trivial, rfl⟩
  | false =>
    -- The completion, in the chain call and alone.
    have hdone : ∃ v w ns,
        completeAndFetchNext s a = ((fetchAndReply w a.fetch ns).1, some (fetchAndReply w a.fetch ns).2) ∧
        complete s a.toCompleteArgs = (v, some ns) ∧ w.blank false = v.blank false := by
      by_cases hstate : (s.job a.jobId).state = none
      · refine ⟨forgetListClaim (ackDel s a.group a.entryId) a.jobId a.entryId,
          forgetListClaim (ackDel (beginChain s) a.group a.entryId) a.jobId a.entryId, [], ?_, ?_, ?_⟩
        · unfold completeAndFetchNext
          simp only [hrevoked, Bool.false_eq_true, if_false, hstate, if_true]
          rfl
        · unfold complete
          simp only [hrevoked, Bool.false_eq_true, if_false, hstate, if_true]
        · refine blank_congr (f := (forgetListClaim · a.jobId a.entryId)) (fun q => ?_)
            (blank_ackDel (blank_beginChain false s) a.group a.entryId)
          unfold forgetListClaim
          split <;> rfl
      · obtain ⟨v, ns, hplain, hblank, hns⟩ := completeInChain_refines hmatch hstate hrevoked
        refine ⟨v, _, ns, ?_, hplain, hblank⟩
        unfold completeAndFetchNext
        simp only [hrevoked, Bool.false_eq_true, if_false, hstate, hns]
        rfl
    obtain ⟨v, w, ns, hchain, hplain, hblank⟩ := hdone
    rw [hplain] at hquiet ⊢
    rw [hchain]
    refine ⟨?_, rfl⟩
    have hpaused : w.paused = v.paused := key_of_blank Queue.paused (fun _ => rfl) hblank
    have hnothing : NothingToFetch w a.group = NothingToFetch v a.group :=
      key_of_blank (NothingToFetch · a.group) (fun _ => rfl) hblank
    have hend : w.paused ∨ NothingToFetch w a.fetch.group := by
      rw [hpaused]
      exact hquiet.imp_right hnothing.mpr
    exact (blank_fetchAndReply ns hend).trans hblank

/-- A job of a group in a queue that is paused: the worker knows its group, and that it has no
ordering key. -/
def pausedWithGroupJob : Queue :=
  { name := "q"
    paused := true
    jobs := Function.update (fun _ => none) "a"
      (some { state := some .active, groupKey := some "k", processedOn := some 5 })
    groups := Function.update (fun _ => {}) "k" { active := 1, maxConcurrency := 1 } }

def completeWithHints : CompleteNextArgs :=
  { jobId := "a"
    entryId := none
    timestamp := 9
    serverNow := 9
    group := "g"
    consumer := "w"
    orderingKey := .absent
    groupKey := .is "k"
    processedOn := some 5 }

theorem completeAndFetchNext_refines_with_hints :
    (completeAndFetchNext pausedWithGroupJob completeWithHints).1.blank false =
      (complete pausedWithGroupJob completeWithHints.toCompleteArgs).1.blank false :=
  (completeAndFetchNext_refines_complete pausedWithGroupJob completeWithHints
    ⟨rfl, rfl, by decide, by decide⟩ (Or.inl (by decide))).1

end GlideMq
