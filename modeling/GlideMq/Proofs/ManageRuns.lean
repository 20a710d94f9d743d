import GlideMq.Proofs.AdminRuns

/-!
# Rescheduling and postponing as a run of steps

A waiting, delayed or prioritized job is moved to another place, and a running one is put off, waits
for its children, is suspended, or goes back to its paused group.
-/

namespace GlideMq

open Queue Redis

section

variable {s₀ : Queue} {c : Option Call} {h : Option JobId} {s t u : Queue}

/-! ## Rescheduling -/

theorem life_setPriority {J : JobId} (hj : s.jobs J ≠ none) (n : Nat) :
    (s.setPriority J n).life = s.life := life_hset_self hj fun _ => rfl

theorem life_setDelay {J : JobId} (hj : s.jobs J ≠ none) (d : Int) :
    (s.setDelay J d).life = s.life := life_hset_self hj fun _ => rfl

theorem jobs_setState_ne_none (s : Queue) (J : JobId) (st : JobState) :
    (s.setState J st).jobs J ≠ none := by simp [Queue.setState]

theorem detachWaitingJob_spec {J : JobId} {group : Group} (hd : detachWaitingJob s group J = some t) :
    ∃ (e : Option Nat) (src : List Source), EntryOf s J e ∧
      (∀ source ∈ src, source = .priority ∨ source = .lifo ∨ source = .scheduled J) ∧
      t = src.foldl (·.takeFrom J) (ackDel s group e) := by
  -- A waiting job is in the priority list, in the LIFO list or in the stream.
  unfold detachWaitingJob at hd
  split at hd
  · obtain rfl := Option.some.inj hd
    exact ⟨none, [.priority], entryOf_none s J, by simp, rfl⟩
  split at hd
  · obtain rfl := Option.some.inj hd
    exact ⟨none, [.lifo], entryOf_none s J, by simp, rfl⟩
  · obtain ⟨e, he, rfl⟩ := Option.map_eq_some_iff.mp hd
    exact ⟨some e.id, [], firstEntry_spec he, by simp, rfl⟩

theorem changePriority_qsteps (s : Queue) (J : JobId) (newPriority : Nat) (group : Group) :
    QSteps s₀ (some (.changePriority J newPriority group)) (h, s)
      (h, (changePriority s J newPriority group).1) := by
  generalize hcall : some (Call.changePriority J newPriority group) = c
  have hc : Reschedules c J := Or.inl ⟨_, _, hcall.symm⟩
  unfold changePriority
  split
  · exact .refl
  split
  · exact .refl
  rename_i hj
  simp only
  split
  · rename_i hst
    have hwaits := Or.inl (b := s.stateOf J = some .delayed ∨ s.stateOf J = some .prioritized) hst
    split
    · split
      · obtain ⟨p, hp, hq⟩ : ∃ p : Place, p.queued s J ∧
            (if (((s.lremPriority J).job J).lifo) = true then (s.lremPriority J).rpushLifo J
              else (s.lremPriority J).xaddJob J) = (s.lremPriority J).put J p := by
          split
          · rename_i hlifo
            exact ⟨.lifo, hlifo, rfl⟩
          · exact ⟨.stream none, trivial, rfl⟩
        have hwhy : Why s₀ c s { job := J, sources := [.priority], place := p, state := .waiting } :=
          .reschedule hwaits (entryOf_none s J) (by simp) (Or.inl ⟨rfl, hp⟩) hc
        have hjobs : ((s.lremPriority J).put J p).jobs J ≠ none := by
          cases p <;> exact hj
        refine QSteps.move hwhy ?_
        simp only
        rw [hq, life_setPriority hjobs]
        have hstate : ((s.lremPriority J).put J p).stateOf J = some .waiting := by
          rw [stateOf_put]
          exact hst
        exact congrArg Queue.life (setState_self hstate).symm
      split
      · exact .refl
      · exact .of_life (life_setPriority hj 0)
    · split
      · exact .refl
      · rename_i t hd
        obtain ⟨e, src, he, hsrc, rfl⟩ := detachWaitingJob_spec hd
        have hwhy : Why s₀ c s
            { job := J, group, entry := e, sources := src,
              place := .scheduled (newPriority * priorityShift), state := .prioritized } :=
          .reschedule hwaits he hsrc (Or.inr ⟨Or.inr rfl, trivial⟩) hc
        exact .move hwhy (life_setPriority (jobs_setState_ne_none _ J _) newPriority)
  · rename_i hst
    have hwaits := Or.inr (a := s.stateOf J = some .waiting)
      (Or.inr (a := s.stateOf J = some .delayed) hst)
    split
    · have hwhy : Why s₀ c s
          { job := J, sources := [.scheduled J], place := .stream none, state := .waiting } :=
        .reschedule hwaits (entryOf_none s J) (by simp) (Or.inl ⟨rfl, trivial⟩) hc
      exact .move hwhy (life_setPriority (jobs_setState_ne_none _ J _) 0)
    · have hwhy : Why s₀ c s
          { job := J, place := .scheduled (newPriority * priorityShift), state := .prioritized } :=
        .reschedule hwaits (entryOf_none s J) (by simp) (Or.inr ⟨Or.inr rfl, trivial⟩) hc
      have hadd : (s.zaddScheduled J (newPriority * priorityShift)).stateOf J = some .prioritized := hst
      refine .move hwhy ((life_setPriority (s := s.zaddScheduled J _) hj newPriority).trans ?_)
      exact congrArg Queue.life (setState_self hadd).symm
  · rename_i hst
    have hwaits := Or.inr (a := s.stateOf J = some .waiting)
      (Or.inl (b := s.stateOf J = some .prioritized) hst)
    split
    · exact .refl
    · rename_i x hx
      have hwhy : Why s₀ c s
          { job := J, sources := [.scheduled J],
            place := .scheduled (newPriority * priorityShift + x % priorityShift),
            state := .delayed } :=
        .reschedule hwaits (entryOf_none s J) (by simp) (Or.inr ⟨Or.inl rfl, trivial⟩) hc
      have hadd : ((s.zremScheduled J).zaddScheduled J
          (newPriority * priorityShift + x % priorityShift)).stateOf J = some .delayed := hst
      refine .move hwhy
        ((life_setPriority (s := (s.zremScheduled J).zaddScheduled J _) hj newPriority).trans ?_)
      exact congrArg Queue.life (setState_self hadd).symm
  · exact .refl

theorem zaddScheduledXX_eq {J : JobId} {x y : Int} (hx : s.scheduled.score J = some x) :
    s.zaddScheduledXX J y = s.zaddScheduled J y := by
  have hmem : J ∈ s.scheduled := SortedSet.mem_iff.mpr ⟨x, SortedSet.score_eq_some.mp hx⟩
  unfold zaddScheduledXX
  exact if_pos hmem

theorem changeDelay_qsteps (s : Queue) (J : JobId) (newDelay now : Int) (group : Group) :
    QSteps s₀ (some (.changeDelay J newDelay now group)) (h, s)
      (h, (changeDelay s J newDelay now group).1) := by
  generalize hcall : some (Call.changeDelay J newDelay now group) = c
  have hc : Reschedules c J := Or.inr (Or.inl ⟨_, _, _, hcall.symm⟩)
  unfold changeDelay
  split
  · exact .refl
  split
  · exact .refl
  rename_i hj
  split
  · rename_i hst
    have hwaits := Or.inr (a := s.stateOf J = some .waiting)
      (Or.inl (b := s.stateOf J = some .prioritized) hst)
    split
    · exact .refl
    · rename_i x hx
      simp only
      rw [zaddScheduledXX_eq hx, zaddScheduledXX_eq hx]
      split
      · split
        · have hwhy : Why s₀ c s
              { job := J, place := .scheduled (x / priorityShift * priorityShift),
                state := .prioritized } :=
            .reschedule hwaits (entryOf_none s J) (by simp) (Or.inr ⟨Or.inr rfl, trivial⟩) hc
          exact .move hwhy (life_setDelay (jobs_setState_ne_none _ J _) 0)
        · have hwhy : Why s₀ c s
              { job := J, sources := [.scheduled J], place := .stream none, state := .waiting } :=
            .reschedule hwaits (entryOf_none s J) (by simp) (Or.inl ⟨rfl, trivial⟩) hc
          exact .move hwhy (life_setDelay (jobs_setState_ne_none _ J _) 0)
      · have hwhy : Why s₀ c s
            { job := J, place := .scheduled (x / priorityShift * priorityShift + (now + newDelay)),
              state := .delayed } :=
          .reschedule hwaits (entryOf_none s J) (by simp) (Or.inr ⟨Or.inl rfl, trivial⟩) hc
        have hadd : (s.zaddScheduled J
            (x / priorityShift * priorityShift + (now + newDelay))).stateOf J = some .delayed := hst
        refine .move hwhy ((life_setDelay (s := s.zaddScheduled J _) hj newDelay).trans ?_)
        exact congrArg Queue.life (setState_self hadd).symm
  · rename_i hst
    have hwaits := Or.inl (b := s.stateOf J = some .delayed ∨ s.stateOf J = some .prioritized) hst
    split
    · exact .refl
    · simp only
      split
      · exact .refl
      · rename_i t hd
        obtain ⟨e, src, he, hsrc, rfl⟩ := detachWaitingJob_spec hd
        have hwhy : Why s₀ c s
            { job := J, group, entry := e, sources := src,
              place := .scheduled ((s.job J).priority * priorityShift + (now + newDelay)),
              state := .delayed } :=
          .reschedule hwaits he hsrc (Or.inr ⟨Or.inl rfl, trivial⟩) hc
        exact .move hwhy (life_setDelay (jobs_setState_ne_none _ J _) newDelay)
  · rename_i hst
    have hwaits := Or.inr (a := s.stateOf J = some .waiting)
      (Or.inr (a := s.stateOf J = some .delayed) hst)
    split
    · exact .refl
    · split
      · exact .refl
      · rename_i x hx
        simp only
        rw [zaddScheduledXX_eq hx]
        have hwhy : Why s₀ c s
            { job := J, place := .scheduled (x / priorityShift * priorityShift + (now + newDelay)),
              state := .delayed } :=
          .reschedule hwaits (entryOf_none s J) (by simp) (Or.inr ⟨Or.inl rfl, trivial⟩) hc
        exact .move hwhy (life_setDelay (jobs_setState_ne_none _ J _) newDelay)
  · exact .refl

theorem promoteJob_qsteps (s : Queue) (J : JobId) :
    QSteps s₀ (some (.promoteJob J)) (h, s) (h, (promoteJob s J).1) := by
  generalize hcall : some (Call.promoteJob J) = c
  have hc : Reschedules c J := Or.inr (Or.inr hcall.symm)
  unfold promoteJob
  split
  · exact .refl
  split
  · exact .refl
  rename_i hst
  have hst : s.stateOf J = some .delayed := not_not.mp hst
  simp only
  obtain ⟨p, hp, hq⟩ : ∃ p : Place, p.queued s J ∧
      (if (((s.zremScheduled J).job J).lifo) = true then (s.zremScheduled J).rpushLifo J
        else if 0 < ((s.zremScheduled J).job J).priority then (s.zremScheduled J).lpushPriority J
        else (s.zremScheduled J).xaddJob J) = (s.zremScheduled J).put J p := by
    split
    · rename_i hlifo
      exact ⟨.lifo, hlifo, rfl⟩
    split
    · exact ⟨.priorityFront, trivial, rfl⟩
    · exact ⟨.stream none, trivial, rfl⟩
  rw [hq]
  have hwhy : Why s₀ c s { job := J, sources := [.scheduled J], place := p, state := .waiting } :=
    .reschedule (Or.inr (Or.inl hst)) (entryOf_none s J) (by simp) (Or.inl ⟨rfl, hp⟩) hc
  exact .move hwhy (life_setDelay (jobs_setState_ne_none _ J _) 0)

/-! ## Postponing -/

/-- A claim without an entry is given up. -/
def Queue.unclaimed (s : Queue) (J : JobId) (e : Option Nat) : Queue :=
  if e = none then s.dropClaim J else s

@[simp] theorem stateOf_unclaimed (s : Queue) (J K : JobId) (e : Option Nat) :
    (s.unclaimed J e).stateOf K = s.stateOf K := by
  unfold unclaimed
  split <;> rfl

@[simp] theorem jobs_unclaimed (s : Queue) (J : JobId) (e : Option Nat) :
    (s.unclaimed J e).jobs = s.jobs := by
  unfold unclaimed
  split <;> rfl

theorem slotOf_unclaimed (s : Queue) (J K : JobId) (e : Option Nat) :
    slotOf (s.unclaimed J e) K = slotOf s K := by
  unfold unclaimed
  split <;> rfl

theorem entryOf_unclaimed {J : JobId} {e : Option Nat} (he : OwnEntry s₀ c → EntryOf s J e) :
    OwnEntry s₀ c → EntryOf (s.unclaimed J e) J e := by
  unfold unclaimed
  split
  · exact he
  · exact he

theorem unclaimed_qsteps {J : JobId} (hst : s.stateOf J = some .active) (e : Option Nat) :
    QSteps s₀ c (h, s) (h, s.unclaimed J e) := by
  unfold unclaimed
  split
  · exact .single (.unclaim (Or.inr (Or.inl (by simp [hst]))))
  · exact .refl

theorem life_settled {J : JobId} {group : Group} {e : Option Nat} {p : Place} {st : JobState}
    (hu : u.life = (((ackDel s group e).put J p).setState J st).life) :
    (settleListClaim u J e).life =
      (((ackDel (s.unclaimed J e) group e).put J p).setState J st).life := by
  -- The claim may as well be given up first.
  refine (life_settleListClaim hu J e).trans ?_
  unfold unclaimed
  cases e with
  | none =>
    simp only [if_true]
    cases p <;> rfl
  | some n => rfl

theorem orderingSeq_of_apply {J : JobId} {group : Group} {e : Option Nat} {p : Place} {st : JobState}
    (hu : u.life = (((ackDel s group e).put J p).setState J st).life) :
    (u.job J).orderingSeq = (s.job J).orderingSeq := by
  rw [job_of_life Job.orderingSeq (fun _ => rfl) hu, job_setState Job.orderingSeq fun _ _ => rfl]
  cases e <;> cases p <;> rfl

theorem postponed_qsteps {J : JobId} {group : Group} {e : Option Nat} {p : Place} {st : JobState}
    (why : Why s₀ c s { job := J, group, entry := e, place := p, state := st, slot := slotOf s J })
    (hu : u.life = (((ackDel s group e).put J p).setState J st).life) (now serverNow : Int) :
    QSteps s₀ c (h, s) (h, keepOrReleaseSlot u J now serverNow) := by
  -- The move of a running job to another state. Its slot is kept or released after it.
  have hslot : slotOf u J = slotOf s J := slotOf_of_seq (orderingSeq_of_apply hu)
  have hgroup := slotOf_steps u J now serverNow
  rw [hslot] at hgroup
  exact (QSteps.move why (life_doSlot hu J (slotOf s J))).trans hgroup.qsteps

theorem unqueued_keepOrReleaseSlot {J : JobId} (hs : s.unqueued J) (now serverNow : Int) :
    (keepOrReleaseSlot s J now serverNow).unqueued J := by
  refine (slotOf_steps s J now serverNow).unqueued ?_
  unfold Queue.unqueued
  rwa [stateOf_doSlot]

theorem stays_keepOrReleaseSlot {J : JobId} {st : JobState} (hst : s.stateOf J = some st)
    (hparked : st ≠ .groupWaiting) (now serverNow : Int) :
    (keepOrReleaseSlot s J now serverNow).stateOf J = some st ∨
      (keepOrReleaseSlot s J now serverNow).stateOf J = some .failed := by
  -- The group may fail a job that is not parked, and does nothing else to its state.
  refine (slotOf_steps s J now serverNow).keeps
    (I := fun q => q.stateOf J = some st ∨ q.stateOf J = some .failed) (fun p q hstep hp => ?_)
    (Or.inl ((stateOf_doSlot s J J _).trans hst))
  rcases hstep.stateOf J with heq | ⟨hw, -⟩ | ⟨hf, -⟩
  · rwa [heq]
  · rw [hw] at hp
    rcases hp with hp | hp
    · cases hp; exact absurd rfl hparked
    · cases hp
  · exact Or.inr hf

theorem moveActiveToDelayed_qsteps (s : Queue) (a : PostponeArgs) (delayedUntil : Int) :
    QSteps s (some (.moveActiveToDelayed a delayedUntil)) (none, s)
      (none, (moveActiveToDelayed s a delayedUntil).1) := by
  unfold moveActiveToDelayed
  simp only
  split
  · exact .refl
  split
  · exact .refl
  rename_i hst
  have hst : s.stateOf a.jobId = some .active := not_not.mp hst
  generalize ((_ : Int) * priorityShift + _) = x
  generalize hu : (((ackDel s a.group a.entryId).zaddScheduled a.jobId x).setState a.jobId
    .delayed).setDelay a.jobId _ = u
  have hlife : u.life = (((ackDel s a.group a.entryId).put a.jobId (.scheduled x)).setState a.jobId
      .delayed).life := by
    rw [← hu]
    exact life_setDelay (jobs_setState_ne_none _ _ _) _
  have hwhy : Why s (some (.moveActiveToDelayed a delayedUntil)) (s.unclaimed a.jobId a.entryId)
      { job := a.jobId, group := a.group, entry := a.entryId, place := .scheduled x,
        state := .delayed, slot := slotOf (s.unclaimed a.jobId a.entryId) a.jobId } :=
    .postpone (by simpa using hst) (entryOf_unclaimed fun hown => hown _ rfl) ⟨a, _, rfl, rfl⟩
  exact (unclaimed_qsteps hst a.entryId).trans (postponed_qsteps hwhy (life_settled hlife) _ _)

theorem suspend_qsteps (s : Queue) (a : PostponeArgs) (timeout : Int) :
    QSteps s (some (.suspend a timeout)) (none, s) (none, (suspend s a timeout).1) := by
  unfold suspend
  simp only
  split
  · exact .refl
  split
  · exact .refl
  rename_i hst
  have hst : s.stateOf a.jobId = some .active := not_not.mp hst
  generalize (if 0 < timeout then a.now + timeout else noDeadline) = x
  have hwhy : Why s (some (.suspend a timeout)) s
      { job := a.jobId, group := a.group, entry := a.entryId, place := .suspended x,
        state := .suspended, slot := slotOf s a.jobId } := .suspend hst fun hown => hown _ rfl
  have hlife : (((ackDel s a.group a.entryId).setState a.jobId .suspended).zaddSuspended a.jobId
      x).life = (((ackDel s a.group a.entryId).put a.jobId (.suspended x)).setState a.jobId
        .suspended).life := rfl
  refine (postponed_qsteps hwhy hlife a.now a.serverNow).trans
    (settleListClaim_qsteps (Or.inr (unqueued_keepOrReleaseSlot ?_ _ _).1))
  simp [Queue.unqueued, stateOf_of_life hlife, stateOf_setState]

theorem moveToWaitingChildren_qsteps (s : Queue) (a : PostponeArgs) :
    QSteps s (some (.moveToWaitingChildren a)) (none, s) (none, (moveToWaitingChildren s a).1) := by
  unfold moveToWaitingChildren
  simp only
  split
  · exact .refl
  split
  · exact .refl
  rename_i hst
  have hst : s.stateOf a.jobId = some .active := not_not.mp hst
  have hwhy : Why s (some (.moveToWaitingChildren a)) s
      { job := a.jobId, group := a.group, entry := a.entryId, state := .waitingChildren,
        slot := slotOf s a.jobId } := .waitForChildren hst fun hown => hown _ rfl
  generalize hv : (ackDel s a.group a.entryId).setState a.jobId .waitingChildren = v
  have hlife : v.life = (((ackDel s a.group a.entryId).put a.jobId .nowhere).setState a.jobId
      .waitingChildren).life := by
    rw [← hv]
    rfl
  have hsteps := postponed_qsteps (h := none) hwhy hlife a.now a.serverNow
  have hstate : v.stateOf a.jobId = some .waitingChildren := by
    rw [← hv, stateOf_setState, if_pos rfl]
  have hwaits := stays_keepOrReleaseSlot hstate (by simp) a.now a.serverNow
  have hcounted := life_countEarlyDeps (keepOrReleaseSlot v a.jobId a.now a.serverNow) a.jobId
  generalize (countEarlyDeps (keepOrReleaseSlot v a.jobId a.now a.serverNow) a.jobId).1 = w at *
  rw [← stateOf_of_life hcounted] at hwaits
  replace hsteps := QSteps.quiet hsteps hcounted
  split
  · have hrelease : QStep s (some (.moveToWaitingChildren a)) (none, w)
        (none, (w.setState a.jobId .waiting).xaddJob a.jobId) :=
      .move (.releaseAtOnce rfl hst hwaits) (Or.inl rfl) rfl
    refine (hsteps.tail hrelease).trans ?_
    have hentry : ∃ e ∈ ((w.setState a.jobId .waiting).xaddJob a.jobId).stream.entries,
        e.val.jobId = a.jobId :=
      ⟨_, Stream.mem_entries_xadd.mpr (Or.inr rfl), rfl⟩
    generalize (w.setState a.jobId .waiting).xaddJob a.jobId = x at *
    have hentry' := hentry
    rw [← entries_of_life (life_decrListActive x a.jobId)] at hentry'
    unfold settleListClaim
    split
    · exact (QSteps.of_life (life_decrListActive x a.jobId)).tail (.unclaim (Or.inr (Or.inr hentry')))
    · exact .refl
  · refine hsteps.trans (settleListClaim_qsteps (Or.inr ?_))
    rcases hwaits with hw | hf
    · simp [hw]
    · simp [hf]

/-! ## Suspension -/

theorem signal_qsteps (s : Queue) (J : JobId) : QSteps s₀ c (h, s) (h, (signal s J).1) := by
  unfold signal
  split
  · rename_i hst
    have hwhy : Why s₀ c s
        { job := J, sources := [.suspended], place := .stream none, state := .waiting } :=
      .signal hst
    exact .move hwhy rfl
  · exact .refl

theorem failSuspended_qsteps {J : JobId} (hst : s.stateOf J = some .suspended) (now serverNow : Int) :
    QSteps s₀ c (h, s) (h, failSuspended s J now serverNow) ∧
      (failSuspended s J now serverNow).stateOf J = some .failed := by
  unfold failSuspended
  simp only
  generalize hv : markOrderingDone _ J _ _ = v
  have hlife : v.life = ((s.put J (.failed now)).setState J .failed).life := by
    rw [← hv, life_of_core (core_markOrderingDone _ _ _ _),
      life_of_core (core_advanceRepeatAfterComplete _ _ _)]
    unfold setState
    rw [life_hset, life_hset]
    rfl
  have hwhy : Why s₀ c s
      { job := J, place := .failed now, state := .failed,
        slot := if 0 < (s.job J).orderingSeq then .release (s.job J).groupKey else .leave } :=
    .timeOut hst
  have hgroup : GroupSteps
      (v.doSlot J (if 0 < (s.job J).orderingSeq then .release (s.job J).groupKey else .leave))
      (if 0 < (s.job J).orderingSeq then
        releaseGroupSlotAndPromote v J now serverNow (s.job J).groupKey false else v) := by
    by_cases hseq : 0 < (s.job J).orderingSeq
    · rw [if_pos hseq, if_pos hseq]
      exact releaseGroupSlotAndPromote_steps v J now serverNow _
    · rw [if_neg hseq, if_neg hseq]
      exact .refl
  have hfailed : v.stateOf J = some .failed := by
    rw [stateOf_of_life hlife, stateOf_setState, if_pos rfl]
  constructor
  · exact QSteps.quiet ((QSteps.move hwhy (life_doSlot hlife J _)).trans hgroup.qsteps)
      (life_of_core (core_recordFailed _ _ _))
  · rw [stateOf_of_core (core_recordFailed _ _ _)]
    exact hgroup.failed ((stateOf_doSlot v J J _).trans hfailed)

theorem sweepSuspended_qsteps (s : Queue) (now serverNow : Int) :
    QSteps s₀ c (h, s) (h, sweepSuspended s now serverNow) := by
  unfold sweepSuspended
  generalize s.suspended.rangeByScore 0 now 100 = ids
  induction ids generalizing s with
  | nil => exact .refl
  | cons J ids ih =>
    refine Relation.ReflTransGen.trans ?_ (ih _)
    unfold sweepSuspendedJob
    simp only
    split
    · rename_i hst
      have hfail : QSteps s₀ c (h, s) (h, failSuspended s J now serverNow) ∧ _ :=
        failSuspended_qsteps hst now serverNow
      exact hfail.1.tail (.unsuspend (Or.inr (by simp [hfail.2])))
    · rename_i hst
      exact .single (.unsuspend (Or.inr hst))

/-! ## Pausing a group -/

theorem pauseGroup_qsteps (s : Queue) (gk : GroupKey) (resumeAt : Int) (extendMax : Bool) :
    QSteps s₀ c (h, s) (h, (pauseGroup s gk resumeAt extendMax).1) := .single (.limit gk _)

theorem rateLimitGroupExternal_qsteps (s : Queue) (gk : GroupKey) (duration timestamp : Int)
    (extendMax : Bool) :
    QSteps s₀ c (h, s) (h, (rateLimitGroupExternal s gk duration timestamp extendMax).1) :=
  pauseGroup_qsteps s gk _ extendMax

theorem life_releaseSlot (s : Queue) (J : JobId) (gk : GroupKey) :
    (releaseSlot s J gk).life =
      { s.life with
        jobs := Function.update s.life.jobs J
          ((s.life.jobs J).map fun j => { j with retainedSlot := false }.life)
        groups := Function.update s.life.groups gk (s.groups gk).decrActive.core } := by
  have hreturning (q : Queue) : (q.zremReturning gk J).life = q.life := rfl
  unfold releaseSlot
  rw [life_hgroup, hreturning]
  unfold clearRetainedSlot
  rw [life_hmod s J fun _ => rfl]
  rfl

theorem life_setState_releaseSlot {J : JobId} (hj : s.jobs J ≠ none) (gk : GroupKey) (st : JobState) :
    ((releaseSlot s J gk).setState J st).life = (releaseSlot (s.setState J st) J gk).life := by
  obtain ⟨j, hj⟩ := Option.ne_none_iff_exists'.mp hj
  have hgroup : (s.setState J st).groups gk = s.groups gk := rfl
  have hreleased : (releaseSlot s J gk).job J = { j with retainedSlot := false } := by
    simp [releaseSlot, clearRetainedSlot, Queue.job, hj]
  have hjob : s.job J = j := by simp [Queue.job, hj]
  rw [life_releaseSlot, hgroup]
  unfold setState
  rw [life_hset, life_hset, life_releaseSlot, hreleased, hjob]
  simp only [Function.update_idem, Function.update_self, Option.map_some]
  rfl

theorem life_clearRetainedSlot_releaseSlot (s : Queue) (J : JobId) (gk : GroupKey) :
    (clearRetainedSlot (releaseSlot s J gk) J).life = (releaseSlot s J gk).life := by
  unfold clearRetainedSlot
  rw [life_hmod _ J fun _ => rfl, life_releaseSlot]
  simp only [Function.update_idem, Function.update_self, Option.map_map]
  rfl

theorem life_requeueInGroup {J : JobId} {gk : GroupKey} (hj : u.jobs J ≠ none)
    (hkey : (u.job J).groupKey = some gk) (front : Bool) :
    ∃ x, (requeueInGroup (if 0 < (u.job J).orderingSeq then u else releaseSlot u J gk) gk J front
      (0 < (u.job J).orderingSeq)).life =
        ((park u gk J x).doSlot J (slotOf u J)).life := by
  unfold requeueInGroup slotOf
  by_cases hseq : 0 < (u.job J).orderingSeq
  · simp only [hseq, decide_true, if_true]
    exact ⟨_, rfl⟩
  · simp only [hseq, decide_false, Bool.false_eq_true, if_false]
    refine ⟨requeueScore (releaseSlot u J gk) gk J front, ?_⟩
    generalize requeueScore (releaseSlot u J gk) gk J front = x
    have hpark : (park (releaseSlot u J gk) gk J x).life = (releaseSlot (park u gk J x) J gk).life :=
      life_setState_releaseSlot (s := u.zaddGroupq gk J x) hj gk .groupWaiting
    have hdrop : (dropReturning (park (releaseSlot u J gk) gk J x) J gk).life =
        (clearRetainedSlot (releaseSlot (park u gk J x) J gk) J).life :=
      life_clearRetainedSlot hpark J
    have hkey' : ((park u gk J x).job J).groupKey = some gk := by
      unfold park
      rw [job_setState Job.groupKey fun _ _ => rfl]
      exact hkey
    rw [hdrop, life_clearRetainedSlot_releaseSlot]
    unfold doSlot afterRelease
    rw [hkey']
    rfl

theorem life_failRateLimited {J : JobId} {gk : GroupKey} (hj : u.jobs J ≠ none)
    (hkey : (u.job J).groupKey = some gk) (timestamp : Int) :
    (failRateLimited (releaseSlot u J gk) J timestamp).life =
      (((u.zaddFailed J timestamp).setState J .failed).doSlot J (.release none)).life := by
  have hkey' : (((u.zaddFailed J timestamp).setState J .failed).job J).groupKey = some gk := by
    rw [job_setState Job.groupKey fun _ _ => rfl]
    exact hkey
  unfold failRateLimited
  simp only
  rw [life_of_core (core_markOrderingDone _ _ _ _), life_of_core (core_recordFailed _ _ _),
    life_of_core (core_advanceRepeatAfterComplete _ _ _)]
  refine Eq.trans ?_ ((life_setState_releaseSlot (s := u.zaddFailed J timestamp) hj gk .failed).trans ?_)
  · unfold setState
    rw [life_hset, life_hset]
    rfl
  · unfold doSlot afterRelease
    rw [hkey']
    rfl

theorem rateLimitGroup_qsteps (s : Queue) (a : RateLimitArgs) :
    QSteps s (some (.rateLimitGroup a)) (none, s) (none, (rateLimitGroup s a).1) := by
  unfold rateLimitGroup
  simp only
  split
  · exact .refl
  rename_i hst
  have hst : s.stateOf a.jobId = some .active := not_not.mp hst
  split
  · exact .refl
  rename_i gk hkey
  simp only
  generalize hu : settleListClaim (ackDel s a.group a.entryId) a.jobId a.entryId = u
  have hlife : u.life = (ackDel (s.unclaimed a.jobId a.entryId) a.group a.entryId).life := by
    rw [← hu, life_settleListClaim rfl]
    unfold unclaimed
    cases a.entryId <;> rfl
  have hstu : u.stateOf a.jobId = some .active := by
    rw [stateOf_of_life hlife, stateOf_ackDel, stateOf_unclaimed, hst]
  have hju : u.jobs a.jobId ≠ none := jobs_ne_none_of_stateOf hstu
  have hjob {α : Type} (f : Job → α) (hf : ∀ j, f j.life = f j) :
      f (u.job a.jobId) = f (s.job a.jobId) := by
    rw [job_of_life f hf hlife]
    unfold Queue.job
    cases a.entryId <;> rfl
  have hkeyu : (u.job a.jobId).groupKey = some gk := (hjob Job.groupKey fun _ => rfl).trans hkey
  have hslot : slotOf (s.unclaimed a.jobId a.entryId) a.jobId = slotOf u a.jobId := by
    rw [slotOf_unclaimed]
    exact (slotOf_of_seq (hjob Job.orderingSeq fun _ => rfl)).symm
  have hown : OwnEntry s (some (.rateLimitGroup a)) → EntryOf (s.unclaimed a.jobId a.entryId) a.jobId
      a.entryId := entryOf_unclaimed fun hown => hown _ rfl
  have hstart : QSteps s (some (.rateLimitGroup a)) (none, s) (none, s.unclaimed a.jobId a.entryId) :=
    unclaimed_qsteps hst a.entryId
  have hactive : (s.unclaimed a.jobId a.entryId).stateOf a.jobId = some .active := by simpa using hst
  have hkey' : ((s.unclaimed a.jobId a.entryId).job a.jobId).groupKey = some gk := by
    unfold Queue.job
    rw [jobs_unclaimed]
    exact hkey
  refine Relation.ReflTransGen.trans (hstart.trans ?_) (pauseGroup_qsteps _ gk _ _)
  by_cases hr : a.requeue
  · obtain ⟨x, hx⟩ := life_requeueInGroup hju hkeyu a.front
    have hwhy : Why s (some (.rateLimitGroup a)) (s.unclaimed a.jobId a.entryId)
        { job := a.jobId, group := a.group, entry := a.entryId, place := .groupq gk x,
          state := .groupWaiting, slot := slotOf (s.unclaimed a.jobId a.entryId) a.jobId } :=
      .rateLimit hactive hkey' hown
    refine QSteps.move hwhy ?_
    have hpark := life_doSlot (life_setState (life_put hlife a.jobId (.groupq gk x)) a.jobId
      .groupWaiting) a.jobId (slotOf u a.jobId)
    rw [hslot]
    refine Eq.trans ?_ (hx.trans hpark)
    simp only [hr, if_true, true_and, decide_eq_true_eq]
    rfl
  · have hwhy : Why s (some (.rateLimitGroup a)) (s.unclaimed a.jobId a.entryId)
        { job := a.jobId, group := a.group, entry := a.entryId, place := .failed a.timestamp,
          state := .failed, slot := .release none } :=
      .rateLimitFail hactive hown
    refine QSteps.move hwhy ?_
    have hfail := life_doSlot (life_setState (life_put hlife a.jobId (.failed a.timestamp)) a.jobId
      .failed) a.jobId (.release none)
    refine Eq.trans ?_ ((life_failRateLimited hju hkeyu a.timestamp).trans hfail)
    simp only [hr, false_and, Bool.false_eq_true, if_false, decide_false]
    rfl

end

end GlideMq
