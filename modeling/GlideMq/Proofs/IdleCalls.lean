import GlideMq.Proofs.AdminRuns
import GlideMq.Proofs.Idle
import GlideMq.Proofs.PromoteRuns

/-!
# The calls that charge no group

The scheduler's ticks, and what a client or a running job asks for.
-/

namespace GlideMq

open Queue Redis

/-! ## Ticks -/

section

variable {x : Int} {s t : Queue} {J : JobId} {gk : GroupKey} {group : Group} {now serverNow : Int}

theorem idle_promoteMember (priority : Int) (s : Queue) (member : String) :
    Idle serverNow s (promoteMember priority now serverNow s member) := by
  have hexpired : Idle serverNow s
      (checkExpired (s.zremScheduled member) (splitMember member).1 now serverNow).1 := by
    have hrem : Calm serverNow s (s.zremScheduled member) := (Calm.refl s).quiet rfl
    exact hrem.checkExpired.idle
  unfold promoteMember
  simp only
  split
  · rename_i heq
    rw [heq] at hexpired
    exact hexpired
  · rename_i u heq
    rw [heq] at hexpired
    refine Idle.setState ?_ .waiting nofun
    split
    · exact hexpired.other rfl rfl
    split
    · exact hexpired.other rfl rfl
    split
    · exact hexpired.other rfl rfl
    · exact hexpired.xaddJob

theorem Idle.promoteRounds (fuel : Nat) (h : Idle serverNow s t) (count : Nat) (cursorMin : Int) :
    Idle serverNow s (promoteRounds now serverNow fuel t count cursorMin).1 := by
  induction fuel generalizing t count cursorMin with
  | zero => exact h
  | succ fuel ih =>
    rw [GlideMq.promoteRounds]
    split
    · exact h
    split
    · exact h
    · exact ih (h.foldl fun u m _ => idle_promoteMember _ u m) _ _

theorem idle_promote (s : Queue) (now serverNow : Int) :
    Idle serverNow s (promote s now serverNow).1 := (Idle.refl s).promoteRounds _ _ _

/-! ### Groups after a pause -/

theorem Calm.sweepHead (h : Calm serverNow s t) (tokens : Int) (checks n : Nat) :
    Calm serverNow s (sweepHead gk now serverNow tokens checks t n).1 := by
  induction checks generalizing t n with
  | zero => exact h
  | succ checks ih =>
    rw [GlideMq.sweepHead]
    split
    · exact h
    split
    · exact ih (h.zremGroupq.quiet (books_consumeOrderedTombstone _ _ _ _ _)) _
    simp only
    split
    · exact h.zremGroupq.failOversize.closeOrderingHoleAndPromote
    split
    · exact h.quiet rfl
    · exact h

theorem Calm.sweepGate (h : Calm serverNow s t) :
    Calm serverNow s (sweepGate t gk now serverNow).1 := by
  rw [sweepGate_eq]
  split
  · exact h
  · have hhead : Calm serverNow s (GlideMq.sweepHead gk now serverNow (GlideMq.refill t gk serverNow).2 100
        (GlideMq.refill t gk serverNow).1 (t.groups gk).nextSeq).1 := (h.refill gk).sweepHead _ _ _
    generalize GlideMq.sweepHead gk now serverNow _ 100 _ _ = r at *
    obtain ⟨u, n, check⟩ := r
    unfold afterSweepHead
    cases check with
    | ready => exact hhead
    | blocked => exact hhead
    | unready =>
      simp only
      split
      · exact hhead.quiet rfl
      · exact hhead

theorem Calm.foldl_fst {α β : Type} {f : Queue × β → α → Queue × β} {l : List α}
    (hf : ∀ r, ∀ a ∈ l, Calm x r.1 (f r a).1) {r : Queue × β} (h : Calm x s r.1) :
    Calm x s (l.foldl f r).1 := by
  induction l generalizing r with
  | nil => exact h
  | cons a l ih =>
    refine ih (fun r b hb => hf r b (List.mem_cons_of_mem a hb)) ?_
    exact h.trans (hf r a List.mem_cons_self)

theorem calm_readyReturners (s : Queue) (gk : GroupKey) : Calm x s (readyReturners s gk).1 := by
  unfold readyReturners
  refine Calm.foldl_fst (fun r J _ => ?_) (.refl s)
  dsimp only
  split
  · exact .refl r.1
  · exact (Calm.refl r.1).zremReturning

theorem calm_checkReturner (g : GroupHash) (r : Queue × Returners) (J : JobId) :
    Calm serverNow r.1 (checkReturner g gk now serverNow r J).1 := by
  unfold checkReturner
  simp only
  split
  · exact (Calm.refl r.1).zremGroupq.failOversize.closeOrderingHoleAndPromote
  split
  · exact .refl r.1
  · exact .refl r.1

theorem Calm.promoteReturner (h : Calm x s t) : Calm x s (promoteReturner gk t J) :=
  h.zremGroupq.promoteJobOfGroup.zremReturning

theorem Calm.sweepLoop (paused : Bool) (iter left : Nat) (h : Calm serverNow s t) (n promoted : Nat) :
    Calm serverNow s (sweepLoop gk now serverNow paused iter left t n promoted).1 := by
  induction iter generalizing left t n promoted with
  | zero => rwa [GlideMq.sweepLoop]
  | succ iter ih =>
    cases left with
    | zero => rwa [GlideMq.sweepLoop]
    | succ left =>
      rw [GlideMq.sweepLoop]
      split
      · exact h
      · rename_i K _ _
        simp only
        have hrem : Calm serverNow s (t.zremGroupq gk K) := h.zremGroupq
        have hexpired : Calm serverNow s (GlideMq.checkExpired (t.zremGroupq gk K) K now serverNow).1 :=
          hrem.checkExpired
        split
        · exact hrem.quiet rfl
        split
        · exact ih _ hrem _ _
        split
        · rename_i heq
          rw [heq] at hexpired
          exact ih _ hexpired _ _
        · rename_i heq
          rw [heq] at hexpired
          split
          · exact hexpired.quiet rfl
          · exact ih _ hexpired.promoteJobOfGroup _ _

theorem earlierHead_calm {n : Nat} {u : Queue} (he : earlierHead s gk n = some (u, J)) : Calm x s u := by
  unfold earlierHead at he
  simp only at he
  split at he
  · cases he
  · obtain ⟨rfl, -⟩ := Prod.mk.inj (Option.some.inj he)
    split
    · exact .refl s
    · exact (Calm.refl s).quiet rfl

theorem Calm.limitUntil (h : Calm serverNow s t) (gk : GroupKey) (resumeAt : Option Int) :
    Calm serverNow s (match resumeAt with
      | none => t
      | some t' => t.zaddRatelimited gk t') := by
  split
  · exact h
  · exact h.quiet rfl

theorem Calm.sweepPromote (h : Calm serverNow s t) (g : GroupHash) (n : Nat) (tokens : Int) :
    Calm serverNow s (sweepPromote t gk g n tokens now serverNow).1 := by
  unfold GlideMq.sweepPromote
  simp only
  have hskip : Calm serverNow s (skipToNext t gk n).1 := h.quiet (books_skipToNext _ _ _)
  have hready := hskip.trans (calm_readyReturners (skipToNext t gk n).1 gk)
  generalize (skipToNext t gk n).2 = n' at *
  generalize readyReturners (skipToNext t gk n).1 gk = r at *
  have hcheck : Calm serverNow s
      (r.2.foldl (checkReturner g gk now serverNow) (r.1, { tokens })).1 :=
    Calm.foldl_fst (fun u K _ => calm_checkReturner g u K) hready
  generalize r.2.foldl (checkReturner g gk now serverNow) (r.1, { tokens }) = r' at *
  have hlimit := hcheck.limitUntil gk r'.2.resumeAt
  refine Calm.sweepLoop _ _ _ (.foldl (fun u K _ => (Calm.refl u).promoteReturner) ?_) _ _
  split
  · exact hlimit
  split
  · split
    · exact hlimit
    · rename_i heq
      exact hlimit.trans (earlierHead_calm heq)
  · exact hlimit

theorem idle_sweepGroup (r : Queue × Nat) (gk : GroupKey) :
    Idle serverNow r.1 (sweepGroup now serverNow r gk).1 := by
  have hrem : Calm serverNow r.1 (r.1.zremRatelimited gk) := (Calm.refl r.1).quiet rfl
  have hgate : Calm serverNow r.1 (GlideMq.sweepGate (r.1.zremRatelimited gk) gk now serverNow).1 :=
    hrem.sweepGate
  unfold sweepGroup
  simp only
  split
  · exact (hgate.sweepPromote _ _ _).idle
  · exact hgate.idle

theorem idle_promoteRateLimited (s : Queue) (now serverNow : Int) :
    Idle serverNow s (promoteRateLimited s now serverNow).1 :=
  .foldl_fst (fun r gk _ => idle_sweepGroup r gk) (.refl s)

/-! ## Removal -/

theorem Idle.removeEntry (h : Idle x s t) : Idle x s (removeEntry t J) := by
  unfold GlideMq.removeEntry
  split
  · exact h
  · exact h.other rfl rfl

theorem calm_removeSlot (s : Queue) (J : JobId) (job : Job) (serverNow : Int) :
    Calm serverNow s (removeSlot s J job serverNow) := by
  unfold removeSlot
  split
  · exact .refl s
  split
  · exact (Calm.refl s).releaseGroupSlotAndPromote
  · refine Calm.closeOrderingHoleAndPromote ?_
    split
    · exact (Calm.refl s).zremGroupq
    · exact .refl s

theorem Idle.removeFromAll (h : Idle x s t) {st : Option JobState} :
    Idle x s (removeFromAll t J st) := by
  unfold GlideMq.removeFromAll
  simp only
  have hclaim : Idle x s
      (if decide (st = some .active) && isListSourced (t.job J) then GlideMq.decrListActive t J
      else t) := by
    split
    · exact h.decrListActive
    · exact h
  generalize (if (decide (st = some .active) && isListSourced (t.job J)) = true then _ else t) = u at *
  have hlists : Idle x s
      (((((u.zremScheduled J).zremCompleted J).zremFailed J).lremLifo J).lremPriority J) :=
    hclaim.other rfl rfl
  have hdone := hlists.calm ((Calm.refl _).markOrderingDone (J := J) (k := none) (n := none))
  split
  · exact hdone.removeEntry
  · exact hdone

theorem Idle.removeKeys (h : Idle x s t) {st : Option JobState} : Idle x s (removeKeys t J st) := by
  unfold GlideMq.removeKeys
  simp only
  have hparents : Idle x s (if st ≠ some .completed then
      resolveRemovedChildParents t J (readChildParents t J) else (t, [])).1 := by
    split
    · exact h.calm ((Calm.refl t).resolveRemovedChildParents _)
    · exact h
  generalize (if st ≠ some .completed then _ else (t, [])) = r at *
  have hunlinked : Idle x s ((r.1.unlinkParents J).unlinkDeps J) := hparents.other rfl rfl
  exact hunlinked.unlinkJob.other rfl rfl

theorem idle_removeJob (s : Queue) (J : JobId) (serverNow : Int) :
    Idle serverNow s (removeJob s J serverNow).1 := by
  cases hj : s.jobs J with
  | none =>
    unfold removeJob
    rw [hj]
    exact .refl s
  | some job =>
    rw [removeJob_eq hj]
    exact (calm_removeSlot s J job serverNow).idle.removeFromAll.removeKeys

theorem idle_clean (s : Queue) (k : TerminalSet) (cutoff : Int) (limit : Nat) :
    Idle x s (clean s k cutoff limit).1 := by
  unfold clean
  simp only
  refine Idle.foldl (fun u J _ => ?_) (.foldl (fun u J _ => ?_) (.refl s))
  · exact (Calm.refl u).zremTerminal.idle
  · exact (Idle.refl u).unlinkJob.other rfl rfl

/-! ## Revocation -/

theorem Calm.setRevoked (h : Calm x s t) {timestamp : Int} : Calm x s (t.setRevoked J timestamp) :=
  h.zaddFailed.setFailed

theorem Calm.unpark (h : Calm serverNow s t) (key : Option GroupKey) (J : JobId) :
    Calm serverNow s (match key with
      | none => t
      | some gk => t.zremGroupq gk J) := by
  split
  · exact h
  · exact h.zremGroupq

theorem idle_revoke (s : Queue) (J : JobId) (timestamp serverNow : Int) (group : Group) :
    Idle serverNow s (revoke s J timestamp serverNow group).1 := by
  unfold revoke
  split
  · exact .refl s
  · have hflag : Calm serverNow s (s.hset J ({ · with revoked := true })) :=
      (Calm.refl s).hset fun _ => .touch rfl rfl rfl
    simp only
    generalize s.hset J ({ · with revoked := true }) = u at *
    have hwait (waiting : Bool) (inList : Bool) : Idle serverNow s
        (closeOrderingHoleAndPromote (markOrderingDone (Queue.setRevoked
          (if waiting ∧ ¬ inList then
            GlideMq.ackDel (((u.zremScheduled J).lremLifo J).lremPriority J) group
              ((firstEntry (((u.zremScheduled J).lremLifo J).lremPriority J) J).map Entry.id)
          else ((u.zremScheduled J).lremLifo J).lremPriority J) J timestamp) J none none) J
          timestamp serverNow) := by
      have hlists : Idle serverNow s (((u.zremScheduled J).lremLifo J).lremPriority J) :=
        hflag.idle.other rfl rfl
      have hack : Idle serverNow s
          (if waiting ∧ ¬ inList then
            GlideMq.ackDel (((u.zremScheduled J).lremLifo J).lremPriority J) group
              ((firstEntry (((u.zremScheduled J).lremLifo J).lremPriority J) J).map Entry.id)
          else ((u.zremScheduled J).lremLifo J).lremPriority J) := by
        split
        · exact hlists.ackDel
        · exact hlists
      exact hack.calm (Calm.refl _).setRevoked.markOrderingDone.closeOrderingHoleAndPromote
    split
    · have hparked := hflag.unpark (u.job J).groupKey J
      exact hparked.markOrderingDone.closeOrderingHoleAndPromote.setRevoked.idle
    · exact hwait _ _
    · exact hwait _ _
    · exact hwait _ _
    · exact hflag.idle

/-! ## Rescheduling -/

theorem idle_detachWaitingJob {s u : Queue} (hu : detachWaitingJob s group J = some u) :
    Idle x s u := by
  unfold detachWaitingJob at hu
  split at hu
  · obtain rfl := Option.some.inj hu
    exact (Idle.refl s).other rfl rfl
  split at hu
  · obtain rfl := Option.some.inj hu
    exact (Idle.refl s).other rfl rfl
  · obtain ⟨e, -, rfl⟩ := Option.map_eq_some_iff.mp hu
    exact (Idle.refl s).ackDel

theorem Idle.setPriority (h : Idle x s t) (hst : t.stateOf J ≠ some .active) {n : Nat} :
    Idle x s (t.setPriority J n) :=
  h.hset_at (.idle (by rwa [stateOf_eq] at hst) rfl rfl)

theorem stateOf_setState_self (s : Queue) (J : JobId) (st : JobState) :
    (s.setState J st).stateOf J = some st := by
  rw [stateOf_setState, if_pos rfl]

theorem Idle.setDelay (h : Idle x s t) {d : Int} : Idle x s (t.setDelay J d) :=
  h.hset fun _ => .touch rfl rfl rfl

theorem idle_changePriority (s : Queue) (J : JobId) (n : Nat) (group : Group) :
    Idle x s (changePriority s J n group).1 := by
  unfold changePriority
  split
  · exact .refl s
  split
  · exact .refl s
  simp only
  split
  · rename_i hwaiting
    split
    · split
      · have hput : Idle x s (if ((s.lremPriority J).job J).lifo then (s.lremPriority J).rpushLifo J
            else (s.lremPriority J).xaddJob J) := by
          split <;> exact (Idle.refl s).other rfl rfl
        have hst : (if ((s.lremPriority J).job J).lifo then (s.lremPriority J).rpushLifo J
            else (s.lremPriority J).xaddJob J).stateOf J = s.stateOf J := by
          split <;> rfl
        refine hput.setPriority ?_
        rw [hst, hwaiting]
        nofun
      split
      · exact .refl s
      · exact (Idle.refl s).setPriority (by rw [hwaiting]; nofun)
    · split
      · exact .refl s
      · rename_i u hu
        have hadd : Idle x s (u.zaddScheduled J (n * priorityShift)) :=
          (idle_detachWaitingJob hu).other rfl rfl
        refine (hadd.setState .prioritized nofun).setPriority ?_
        rw [stateOf_setState_self]
        nofun
  · rename_i hprioritized
    split
    · have hput : Idle x s ((s.zremScheduled J).xaddJob J) := (Idle.refl s).other rfl rfl
      refine (hput.setState .waiting nofun).setPriority ?_
      rw [stateOf_setState_self]
      nofun
    · have hadd : Idle x s (s.zaddScheduled J (n * priorityShift)) := (Idle.refl s).other rfl rfl
      refine hadd.setPriority ?_
      rw [show (s.zaddScheduled J (n * priorityShift)).stateOf J = s.stateOf J from rfl, hprioritized]
      nofun
  · rename_i hdelayed
    split
    · exact .refl s
    · rename_i old _
      have hadd : Idle x s ((s.zremScheduled J).zaddScheduled J
          (n * priorityShift + old % priorityShift)) := (Idle.refl s).other rfl rfl
      refine hadd.setPriority ?_
      rw [show ((s.zremScheduled J).zaddScheduled J
        (n * priorityShift + old % priorityShift)).stateOf J = s.stateOf J from rfl, hdelayed]
      nofun
  · exact .refl s

theorem Idle.zaddScheduledXX (h : Idle x s t) {y : Int} : Idle x s (t.zaddScheduledXX J y) := by
  unfold Queue.zaddScheduledXX
  split
  · exact h.other rfl rfl
  · exact h

theorem idle_changeDelay (s : Queue) (J : JobId) (newDelay now : Int) (group : Group) :
    Idle x s (changeDelay s J newDelay now group).1 := by
  unfold changeDelay
  split
  · exact .refl s
  split
  · exact .refl s
  simp only
  split
  · split
    · exact .refl s
    split
    · split
      · exact ((Idle.refl s).zaddScheduledXX.setState .prioritized nofun).setDelay
      · have hput : Idle x s ((s.zremScheduled J).xaddJob J) := (Idle.refl s).other rfl rfl
        exact (hput.setState .waiting nofun).setDelay
    · exact (Idle.refl s).zaddScheduledXX.setDelay
  · split
    · exact .refl s
    split
    · exact .refl s
    · rename_i u hu
      have hadd (y : Int) : Idle x s (u.zaddScheduled J y) :=
        (idle_detachWaitingJob hu).other rfl rfl
      exact ((hadd _).setState .delayed nofun).setDelay
  · split
    · exact .refl s
    split
    · exact .refl s
    · exact ((Idle.refl s).zaddScheduledXX.setState .delayed nofun).setDelay
  · exact .refl s

theorem idle_promoteJob (s : Queue) (J : JobId) : Idle x s (promoteJob s J).1 := by
  unfold promoteJob
  split
  · exact .refl s
  split
  · exact .refl s
  · simp only
    have hput : Idle x s (if ((s.zremScheduled J).job J).lifo then (s.zremScheduled J).rpushLifo J
        else if 0 < ((s.zremScheduled J).job J).priority then (s.zremScheduled J).lpushPriority J
        else (s.zremScheduled J).xaddJob J) := by
      repeat' split
      all_goals exact (Idle.refl s).other rfl rfl
    exact (hput.setState .waiting nofun).setDelay

/-! ## Suspension -/

theorem idle_signal (s : Queue) (J : JobId) : Idle x s (signal s J).1 := by
  unfold signal
  split
  · have hwait : Idle x s (s.setState J .waiting) := (Idle.refl s).setState .waiting nofun
    exact hwait.other rfl rfl
  · exact .refl s

theorem Calm.failSuspended (h : Calm serverNow s t) : Calm serverNow s (failSuspended t J now serverNow) := by
  unfold GlideMq.failSuspended
  simp only
  generalize hu : Queue.hset (t.zaddFailed J now) J _ = u
  have hset : Calm serverNow s u := by
    rw [← hu]
    exact h.zaddFailed.hset fun _ => .idle nofun rfl rfl
  have hmark : Calm serverNow s (GlideMq.markOrderingDone (GlideMq.advanceRepeatAfterComplete u J now) J
      (t.job J).orderingKey (some (t.job J).orderingSeq)) := hset.advanceRepeatAfterComplete.markOrderingDone
  split
  · exact (hmark.releaseGroupSlotAndPromote).quiet rfl
  · exact hmark.quiet rfl

theorem idle_sweepSuspended (s : Queue) (now serverNow : Int) :
    Idle serverNow s (sweepSuspended s now serverNow) := by
  refine Idle.foldl (fun u J _ => ?_) (.refl s)
  unfold sweepSuspendedJob
  simp only
  split
  · exact (Calm.refl u).failSuspended.idle.other rfl rfl
  · exact (Idle.refl u).other rfl rfl

/-! ## Draining -/

theorem calm_closeDrainedOrdering (r : Queue × List GroupKey) (J : JobId) :
    Calm x r.1 (closeDrainedOrdering r J).1 := by
  unfold closeDrainedOrdering
  simp only
  split
  · exact .refl r.1
  · exact (Calm.refl r.1).markOrderingDone.closeOrderingHole

theorem idle_drainJob (r : Queue × List GroupKey) (J : JobId) : Idle x r.1 (drainJob r J).1 :=
  (calm_closeDrainedOrdering r J).idle.unlinkJob.other rfl rfl

theorem idle_drainEntry (r : Queue × List GroupKey) (e : Entry JobEntry) :
    Idle x r.1 (drainEntry r e).1 := by
  unfold drainEntry
  simp only
  split
  · exact (Idle.refl r.1).other rfl rfl
  · exact (idle_drainJob r e.val.jobId).other rfl rfl

theorem idle_drain (s : Queue) (drainDelayed : Bool) (group : Group) (serverNow : Int) :
    Idle serverNow s (drain s drainDelayed group serverNow) := by
  unfold drain
  simp only
  have hentries : Idle serverNow s ((undelivered s group).foldl drainEntry (s, [])).1 :=
    .foldl_fst (fun r e _ => idle_drainEntry r e) (.refl s)
  generalize (undelivered s group).foldl drainEntry (s, []) = r at *
  have hscheduled : Idle serverNow s
      (if drainDelayed then
        ((r.1.scheduled.members.foldl drainJob r).1.unlinkScheduled,
          (r.1.scheduled.members.foldl drainJob r).2)
      else r).1 := by
    split
    · have hjobs : Idle serverNow s (r.1.scheduled.members.foldl drainJob r).1 :=
        hentries.foldl_fst fun r J _ => idle_drainJob r J
      exact hjobs.other rfl rfl
    · exact hentries
  generalize (if drainDelayed = true then _ else r) = r' at *
  have hlifo : Idle serverNow s (r'.1.lifoList.foldl drainJob r').1 :=
    hscheduled.foldl_fst fun r J _ => idle_drainJob r J
  generalize r'.1.lifoList.foldl drainJob r' = v at *
  have hpriority : Idle serverNow s (v.1.unlinkLifo.priorityList.foldl drainJob (v.1.unlinkLifo, v.2)).1 :=
    Idle.foldl_fst (fun r J _ => idle_drainJob r J) (hlifo.other rfl rfl)
  generalize v.1.unlinkLifo.priorityList.foldl drainJob (v.1.unlinkLifo, v.2) = w at *
  refine Idle.foldl (fun u gk _ => ?_) (hpriority.other rfl rfl)
  unfold promoteDrained
  split
  · exact (Calm.refl u).releaseGroupSlotAndPromote.idle
  · exact .refl u

/-! ## Retrying failed jobs -/

theorem Idle.retryFailedJob (h : Idle x s t) {timestamp : Int} :
    Idle x s (retryFailedJob t J timestamp) := by
  unfold GlideMq.retryFailedJob
  simp only
  refine Idle.hset ?_ fun _ => .idle nofun rfl rfl
  refine Idle.other (t := t) h ?_ ?_
  all_goals
    unfold issueSeq
    split <;> rfl

theorem idle_retryOne (timestamp : Int) (r : Queue × Nat) (J : JobId) :
    Idle x r.1 (retryOne timestamp r J).1 := by
  unfold retryOne
  split
  · exact .refl r.1
  · exact (Idle.refl r.1).retryFailedJob

theorem Idle.retryBatches (count : Nat) (timestamp : Int) (fuel : Nat) {r : Queue × Nat}
    (h : Idle x s r.1) : Idle x s (retryBatches count timestamp fuel r).1 := by
  induction fuel generalizing r with
  | zero => exact h
  | succ fuel ih =>
    obtain ⟨u, retried⟩ := r
    rw [GlideMq.retryBatches]
    split
    · exact h
    simp only
    generalize u.failed.take (if 0 < count then min 1000 (count - retried) else 1000) = ids
    split
    · exact h
    · have hrem : Idle x s (ids.foldl zremFailed u) :=
        h.foldl fun v J _ => (Idle.refl v).other rfl rfl
      exact ih (Idle.foldl_fst (fun r J _ => idle_retryOne timestamp r J) hrem)

theorem idle_retryJob (s : Queue) (J : JobId) (timestamp : Int) :
    Idle x s (retryJob s J timestamp).1 := by
  unfold retryJob
  split
  · exact .refl s
  · have hrem : Idle x s (s.zremFailed J) := (Idle.refl s).other rfl rfl
    exact hrem.retryFailedJob
  · exact .refl s

/-! ## Parents -/

theorem calm_registerChildDep (s : Queue) (parentId : JobId) (m : DepMember) :
    Calm x s (registerChildDep s parentId m).1 := by
  have hadd : Calm x s (s.saddDeps parentId m) := (Calm.refl s).quiet rfl
  unfold registerChildDep
  simp only
  split
  · exact hadd
  split
  · exact hadd.countEarlyDeps.releaseParentIfReady
  · exact hadd.countEarlyDeps

theorem calm_healParent (r : Queue × Nat) (parentId : JobId) : Calm x r.1 (healParent r parentId).1 := by
  unfold healParent
  simp only
  split
  · exact (Calm.refl r.1).quiet rfl
  · have hcount : Calm x r.1 (countEarlyDeps r.1 parentId).1 := (Calm.refl r.1).countEarlyDeps
    have hrelease : Calm x r.1
        (if (countEarlyDeps r.1 parentId).2 then
          (releaseParentIfReady (countEarlyDeps r.1 parentId).1 parentId).1
        else (countEarlyDeps r.1 parentId).1) := by
      split
      · exact hcount.releaseParentIfReady
      · exact hcount
    generalize (if (countEarlyDeps r.1 parentId).2 = true then _ else _) = u at *
    dsimp only
    split
    · exact hrelease.quiet rfl
    · exact hrelease

theorem idle_healEarlyDeps (s : Queue) (page : List JobId) : Idle x s (healEarlyDeps s page).1 :=
  .foldl_fst (fun r J _ => (calm_healParent r J).idle) (.refl s)

/-! ## Pops -/

theorem Idle.rpopMany (k : ListKey) (n : Nat) (h : Idle x s t) (results : List JobId) :
    Idle x s (rpopMany k n t results).1 := by
  induction n generalizing t results with
  | zero => exact h
  | succ n ih =>
    rw [GlideMq.rpopMany]
    split
    · exact h
    · refine ih ?_ _
      cases k <;> exact h.other rfl rfl

theorem Idle.reserve {r : Queue × List JobId} (h : Idle x s r.1) : Idle x s (reserve r).1 := by
  unfold GlideMq.reserve
  split
  · exact h
  · exact h.other rfl rfl

theorem idle_rpopAndReserve (s : Queue) (k : ListKey) (group : Group) (count : Nat) :
    Idle x s (rpopAndReserve s k group count).1 := by
  unfold rpopAndReserve
  simp only
  split
  · exact .refl s
  split
  · split
    · exact .refl s
    · exact ((Idle.refl s).rpopMany k _ []).reserve
  · exact ((Idle.refl s).rpopMany k _ []).reserve

theorem idle_popBoth (s : Queue) (count : Nat) : Idle x s (popBoth s count).1 := by
  have hpriority : Idle x s (GlideMq.rpopMany .priority count s []).1 := (Idle.refl s).rpopMany _ _ _
  unfold popBoth
  split
  · rename_i heq
    rw [heq] at hpriority
    exact hpriority.rpopMany _ _ _
  · exact hpriority

theorem idle_popLists (s : Queue) (count : Nat) : Idle x s (popLists s count).1 := by
  unfold popLists
  split
  · exact .refl s
  · exact (idle_popBoth s count).other rfl rfl

theorem idle_popListsReserve (s : Queue) (count : Nat) : Idle x s (popListsReserve s count).1 := by
  unfold popListsReserve
  split
  · exact .refl s
  · exact (idle_popBoth s count).reserve

end

end GlideMq
