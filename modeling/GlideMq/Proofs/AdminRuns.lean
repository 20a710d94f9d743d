import GlideMq.Proofs.ClaimRuns

/-!
# Management as a run of steps

Removal, revocation, rescheduling, postponing, pausing a group, draining and retrying, step by step.
-/

namespace GlideMq

open Queue Redis

section

variable {s₀ : Queue} {c : Option Call} {h : Option JobId} {s t u : Queue}

/-! ## Removal -/

theorem firstEntry_spec {J : JobId} {e : Entry JobEntry} (he : firstEntry s J = some e) :
    EntryOf s J (some e.id) := by
  have hjob : e.val.jobId = J := by simpa using List.find?_some he
  exact hjob ▸ entryOf_mem (List.mem_of_find?_eq_some he)

theorem entryOf_firstEntry (s : Queue) (J : JobId) :
    EntryOf s J ((firstEntry s J).map Entry.id) := by
  cases he : firstEntry s J with
  | none => exact entryOf_none s J
  | some e => exact firstEntry_spec he

theorem removeEntry_qsteps (s : Queue) (J : JobId) :
    QSteps s₀ c (some J, s) (some J, removeEntry s J) := by
  unfold removeEntry
  split
  · exact .refl
  · rename_i e he
    have hack : QStep s₀ c (some J, s) (some J, ackDel s "" (some e.id)) :=
      .ack (Or.inl rfl) fun _ => firstEntry_spec he
    exact QSteps.quiet (.single hack) rfl

theorem doSlot_endSlot_of_ungrouped {J : JobId} (hkey : (s.job J).groupKey = none)
    (st : Option JobState) : s.doSlot J (endSlot st) = s := by
  unfold endSlot doSlot
  by_cases hst : st = some .active
  · simp [hst, afterRelease, hkey]
  · simp [hst, closeOrderingHole, getD_jobs, hkey]

/-- The part of `removeJob` that settles the slot. -/
def removeSlot (s : Queue) (J : JobId) (job : Job) (serverNow : Int) : Queue :=
  match job.groupKey with
  | none => s
  | some gk =>
    if job.state = some .active then releaseGroupSlotAndPromote s J 0 serverNow none false
    else
      closeOrderingHoleAndPromote (if job.state = some .groupWaiting then s.zremGroupq gk J else s) J 0
        serverNow

/-- The part that takes the job out of its containers. -/
def removeFromAll (s : Queue) (J : JobId) (st : Option JobState) : Queue :=
  let listClaim := decide (st = some .active) && isListSourced (s.job J)
  let s := if listClaim then decrListActive s J else s
  let s := ((s.zremScheduled J).zremCompleted J).zremFailed J
  let inList := decide (J ∈ s.lifoList) || decide (J ∈ s.priorityList)
  let s := (s.lremLifo J).lremPriority J
  let s := markOrderingDone s J none none
  if (st = some .waiting ∨ (st = some .active ∧ ¬ listClaim)) ∧ ¬ inList then removeEntry s J else s

/-- The part that resolves the parents and deletes the keys. -/
def removeKeys (s : Queue) (J : JobId) (st : Option JobState) : Queue :=
  let r : Queue × List ParentNotify :=
    if st ≠ some .completed then resolveRemovedChildParents s J (readChildParents s J) else (s, [])
  (((r.1.unlinkParents J).unlinkDeps J).unlinkJob J).zremSuspended J

theorem removeJob_eq {J : JobId} {job : Job} (hj : s.jobs J = some job) (serverNow : Int) :
    (removeJob s J serverNow).1 =
      removeKeys (removeFromAll (removeSlot s J job serverNow) J job.state) J job.state := by
  unfold removeJob
  rw [hj]
  rfl

theorem removeSlot_qsteps {J : JobId} {serverNow : Int} {job : Job} (hj : s.jobs J = some job) :
    QSteps s (some (.removeJob J serverNow)) (none, s) (some J, removeSlot s J job serverNow) := by
  have hjob : s.job J = job := by simp [Queue.job, hj]
  have hstate : s.stateOf J = job.state := by simp [Queue.stateOf, hj]
  have hne : s.jobs J ≠ none := by simp [hj]
  have hwhy (src : List Source) (hsrc : ∀ source ∈ src, ∃ gk, source = .groupq gk) :
      WhyTaken s (some (.removeJob J serverNow)) s
        { job := J, sources := src, state := .failed, slot := endSlot (s.stateOf J) } :=
    .remove rfl rfl hne hsrc
  unfold removeSlot
  split
  · rename_i hkey
    refine .single (.take (hwhy [] (by simp)) ?_)
    have hnoop := doSlot_endSlot_of_ungrouped (s := s) (J := J) (by rw [hjob, hkey]) (s.stateOf J)
    exact (congrArg Queue.life hnoop).symm
  · rename_i gk hkey
    split
    · rename_i hactive
      have htake : QStep s (some (.removeJob J serverNow)) (none, s) (some J, afterRelease s J none) := by
        refine .take (hwhy [] (by simp)) ?_
        rw [hstate, hactive]
        rfl
      exact .head htake (release_qsteps s J 0 serverNow none)
    · rename_i hactive
      by_cases hparked : job.state = some .groupWaiting
      · rw [if_pos hparked]
        have htake : QStep s (some (.removeJob J serverNow)) (none, s)
            (some J, closeOrderingHole (s.zremGroupq gk J) J) := by
          refine .take (hwhy [.groupq gk] (by simp)) ?_
          rw [hstate, hparked]
          rfl
        exact .head htake (closeHole_qsteps _ J 0 serverNow)
      · rw [if_neg hparked]
        have htake : QStep s (some (.removeJob J serverNow)) (none, s) (some J, closeOrderingHole s J) := by
          refine .take (hwhy [] (by simp)) ?_
          unfold endSlot
          rw [hstate, if_neg hactive]
          rfl
        exact .head htake (closeHole_qsteps s J 0 serverNow)

theorem removeFromAll_qsteps (s : Queue) (J : JobId) (st : Option JobState) :
    QSteps s₀ c (some J, s) (some J, removeFromAll s J st) := by
  have hscheduled (q : Queue) : QStep s₀ c (some J, q) (some J, q.zremScheduled J) :=
    .empty (.scheduled J) (Or.inl rfl)
  have hcompleted (q : Queue) : QStep s₀ c (some J, q) (some J, q.zremCompleted J) :=
    .unend .completed (Or.inl rfl)
  have hfailed (q : Queue) : QStep s₀ c (some J, q) (some J, q.zremFailed J) :=
    .unend .failed (Or.inl rfl)
  have hlifo (q : Queue) : QStep s₀ c (some J, q) (some J, q.lremLifo J) :=
    .empty .lifo (Or.inr (Or.inl rfl))
  have hpriority (q : Queue) : QStep s₀ c (some J, q) (some J, q.lremPriority J) :=
    .empty .priority (Or.inr (Or.inr rfl))
  unfold removeFromAll
  simp only
  have hclaim : QSteps s₀ c (some J, s) (some J,
      if decide (st = some .active) && isListSourced (s.job J) then decrListActive s J else s) := by
    split
    · exact .of_life (life_decrListActive s J)
    · exact .refl
  generalize (if (decide (st = some .active) && isListSourced (s.job J)) = true then _ else s) = q at *
  have hdone := QSteps.quiet (((((hclaim.tail (hscheduled _)).tail (hcompleted _)).tail
    (hfailed _)).tail (hlifo _)).tail (hpriority _))
    (life_of_core (core_markOrderingDone _ J none none))
  split
  · exact hdone.trans (removeEntry_qsteps _ J)
  · exact hdone

theorem removeKeys_qsteps (s : Queue) (J : JobId) (st : Option JobState) :
    QSteps s₀ c (some J, s) (none, removeKeys s J st) := by
  unfold removeKeys
  simp only
  have hparents : QSteps s₀ c (some J, s) (some J, (if st ≠ some .completed then
      resolveRemovedChildParents s J (readChildParents s J) else (s, [])).1) := by
    split
    · exact resolveRemovedChildParents_qsteps s J _
    · exact .refl
  generalize (if st ≠ some .completed then _ else (s, [])) = r at *
  have hunlinked := QSteps.quiet (t := (r.1.unlinkParents J).unlinkDeps J) hparents rfl
  refine (hunlinked.tail .delete).tail (.unsuspend (Or.inr ?_))
  rw [stateOf_unlinkJob_self]
  simp

theorem removeJob_qsteps (s : Queue) (J : JobId) (serverNow : Int) :
    QSteps s (some (.removeJob J serverNow)) (none, s) (none, (removeJob s J serverNow).1) := by
  cases hj : s.jobs J with
  | none =>
    unfold removeJob
    rw [hj]
  | some job =>
    rw [removeJob_eq hj]
    exact ((removeSlot_qsteps hj).trans (removeFromAll_qsteps _ J _)).trans (removeKeys_qsteps _ J _)

theorem clean_qsteps (s : Queue) (k : TerminalSet) (cutoff : Int) (limit : Nat) :
    QSteps s₀ c (h, s) (h, (clean s k cutoff limit).1) := by
  unfold clean
  simp only
  have hunlink (q : Queue) (J : JobId) : (unlinkCleaned q J).life = (q.unlinkJob J).life := rfl
  refine sweep_qsteps k hunlink ?_ fun J hJ => ?_
  · exact (s.terminalSet k).nodup.sublist
      (((List.take_sublist _ _).trans List.filter_sublist).map _)
  · obtain ⟨p, hp, rfl⟩ := List.mem_map.mp hJ
    exact List.mem_map.mpr ⟨p, (List.mem_filter.mp (List.mem_of_mem_take hp)).1, rfl⟩

/-! ## Revocation -/

theorem life_setRevoked (s : Queue) (J : JobId) (timestamp : Int) :
    (s.setRevoked J timestamp).life = ((s.zaddFailed J timestamp).setState J .failed).life := by
  unfold setRevoked setFailed setState
  rw [life_hset, life_hset]
  rfl

theorem revokeParked_qsteps {J : JobId} {timestamp serverNow : Int} {group : Group}
    (hc : c = some (.revoke J timestamp serverNow group)) (hst : s.stateOf J = some .groupWaiting) :
    QSteps s₀ c (none, s) (none,
      (closeOrderingHoleAndPromote (markOrderingDone
        (match (s.job J).groupKey with
          | none => s
          | some gk => s.zremGroupq gk J) J none none) J timestamp serverNow).setRevoked J timestamp) := by
  -- A parked job is taken out of its wait queue, its group goes on, and it fails.
  obtain ⟨src, hsrc, hq⟩ : ∃ src : List Source, (∀ source ∈ src, ∃ gk, source = .groupq gk) ∧
      (match (s.job J).groupKey with
        | none => s
        | some gk => s.zremGroupq gk J) = src.foldl (·.takeFrom J) s := by
    cases (s.job J).groupKey with
    | none => exact ⟨[], by simp, rfl⟩
    | some gk => exact ⟨[.groupq gk], by simp, rfl⟩
  rw [hq]
  have hwhy : WhyTaken s₀ c s
      { job := J, sources := src, state := .failed, slot := .closeHole } := .revoke hc hst hsrc
  have hdone := life_of_core (core_markOrderingDone (src.foldl (·.takeFrom J) s) J none none)
  have hj : (closeOrderingHoleAndPromote (markOrderingDone (src.foldl (·.takeFrom J) s) J none none)
      J timestamp serverNow).jobs J ≠ none := by
    rw [ne_eq, frame_jobs_none (frame_closeOrderingHoleAndPromote _ J timestamp serverNow),
      jobs_none_of_life hdone]
    rw [foldl_takeFrom_jobs]
    exact jobs_ne_none_of_stateOf hst
  generalize markOrderingDone _ J none none = q at *
  have htake : QStep s₀ c (none, s) (some J, closeOrderingHole q J) :=
    .take hwhy (life_closeOrderingHole hdone J)
  have hsteps := Relation.ReflTransGen.head htake (closeHole_qsteps q J timestamp serverNow)
  generalize closeOrderingHoleAndPromote q J timestamp serverNow = v at *
  have hfail : Why s₀ c v { job := J, place := .failed timestamp, state := .failed } :=
    .revokeParked hc hj
  exact hsteps.tail (.move hfail (Or.inr ⟨rfl, rfl⟩) (life_setRevoked v J timestamp))

theorem setState_self {J : JobId} {st : JobState} (hst : s.stateOf J = some st) :
    s.setState J st = s := by
  unfold Queue.stateOf at hst
  unfold setState hset
  cases hj : s.jobs J with
  | none => rw [hj] at hst; cases hst
  | some j =>
    rw [hj] at hst
    have hstate : j.state = some st := hst
    have hsame : ({ j with state := some st } : Job) = j := by rw [← hstate]
    simp only [Option.getD_some, hsame]
    rw [Function.update_eq_self_iff.mpr hj.symm]

theorem flagRevoked_qsteps {J : JobId} {timestamp serverNow : Int} {group : Group}
    (hc : c = some (.revoke J timestamp serverNow group)) (hj : s.jobs J ≠ none) :
    QSteps s₀ c (h, s) (h, s.hset J ({ · with revoked := true })) :=
  .single (.flag hc hj)

theorem revoke_qsteps (s : Queue) (J : JobId) (timestamp serverNow : Int) (group : Group) :
    QSteps s (some (.revoke J timestamp serverNow group)) (none, s)
      (none, (revoke s J timestamp serverNow group).1) := by
  unfold revoke
  split
  · exact .refl
  rename_i hj
  refine Relation.ReflTransGen.trans (flagRevoked_qsteps rfl hj) ?_
  simp only
  generalize s.hset J _ = u
  have hwaits (hst : u.stateOf J = some .waiting ∨ u.stateOf J = some .delayed ∨
      u.stateOf J = some .prioritized) :
      QSteps s (some (.revoke J timestamp serverNow group)) (none, u) (none,
        closeOrderingHoleAndPromote (markOrderingDone (Queue.setRevoked
          (if decide (u.stateOf J = some .waiting) = true ∧
              ¬ (decide (J ∈ u.lifoList) || decide (J ∈ u.priorityList)) = true then
            ackDel (((u.zremScheduled J).lremLifo J).lremPriority J) group
              ((firstEntry (((u.zremScheduled J).lremLifo J).lremPriority J) J).map Entry.id)
          else ((u.zremScheduled J).lremLifo J).lremPriority J) J timestamp) J none none) J timestamp
          serverNow) := by
    obtain ⟨e, he, hq⟩ : ∃ e, EntryOf u J e ∧
        (if decide (u.stateOf J = some .waiting) = true ∧
            ¬ (decide (J ∈ u.lifoList) || decide (J ∈ u.priorityList)) = true then
          ackDel (((u.zremScheduled J).lremLifo J).lremPriority J) group
            ((firstEntry (((u.zremScheduled J).lremLifo J).lremPriority J) J).map Entry.id)
        else ((u.zremScheduled J).lremLifo J).lremPriority J) =
          (((ackDel u group e).zremScheduled J).lremLifo J).lremPriority J := by
      split
      · refine ⟨(firstEntry u J).map Entry.id, entryOf_firstEntry u J, ?_⟩
        have hfirst : firstEntry (((u.zremScheduled J).lremLifo J).lremPriority J) J = firstEntry u J :=
          rfl
        rw [hfirst]
        cases (firstEntry u J).map Entry.id <;> rfl
      · exact ⟨none, entryOf_none u J, rfl⟩
    rw [hq]
    have hwhy : Why s (some (.revoke J timestamp serverNow group)) u
        { job := J, group, entry := e, sources := [.scheduled J, .lifo, .priority],
          place := .failed timestamp, state := .failed, slot := .closeHole } := .revoke hst he
    generalize hv : markOrderingDone _ J none none = v
    have hlife : v.life = (Queue.setState (Queue.zaddFailed
        ((((ackDel u group e).zremScheduled J).lremLifo J).lremPriority J) J timestamp) J .failed).life := by
      rw [← hv, life_of_core (core_markOrderingDone _ _ _ _)]
      exact life_setRevoked _ J timestamp
    exact (QSteps.move hwhy (life_closeOrderingHole hlife J)).trans
      (closeHole_qsteps v J timestamp serverNow)
  split
  · rename_i hparked
    exact revokeParked_qsteps rfl hparked
  · rename_i hst
    exact hwaits (Or.inl hst)
  · rename_i hst
    exact hwaits (Or.inr (Or.inl hst))
  · rename_i hst
    exact hwaits (Or.inr (Or.inr hst))
  · exact .refl

end

end GlideMq
