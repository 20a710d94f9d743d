import GlideMq.Proofs.StepRuns

/-!
# Settling as a run of steps

`complete`, `fail` and the two chain calls, step by step.
-/

namespace GlideMq

open Queue Redis

/-! ## Jobs that nothing queues -/

/-- The group machinery does not queue the job. -/
def Queue.unqueued (s : Queue) (J : JobId) : Prop :=
  s.stateOf J ≠ some .waiting ∧ s.stateOf J ≠ some .groupWaiting

/-- The job is gone or has ended. -/
def Queue.over (s : Queue) (J : JobId) : Prop := ∀ st, s.stateOf J = some st → st.terminal

section

variable {s t : Queue} {J : JobId}

theorem over_of_state {st : JobState} (h : s.stateOf J = some st) (hst : st.terminal) :
    s.over J := by
  rintro st' h'
  rw [h] at h'
  cases h'
  exact hst

theorem over_of_none (h : s.stateOf J = none) : s.over J := by
  rintro st h'
  rw [h] at h'
  cases h'

theorem Queue.over.unqueued (h : s.over J) : s.unqueued J :=
  ⟨fun hw => absurd (h _ hw) (by simp [JobState.terminal]),
    fun hw => absurd (h _ hw) (by simp [JobState.terminal])⟩

theorem over_of_life (h : t.life = s.life) : t.over J ↔ s.over J := by
  unfold Queue.over
  rw [stateOf_of_life h]

theorem GroupSteps.unqueued (h : GroupSteps s t) (hs : s.unqueued J) : t.unqueued J := by
  refine h.keeps (I := fun u => u.unqueued J) (fun u v hstep hu => ?_) hs
  rcases hstep.stateOf J with heq | ⟨hw, -⟩ | ⟨hf, -⟩
  · unfold Queue.unqueued
    rwa [heq]
  · exact absurd hw hu.2
  · simp [Queue.unqueued, hf]

theorem GroupSteps.over (h : GroupSteps s t) (hs : s.over J) : t.over J := by
  refine h.keeps (I := fun u => u.over J) (fun u v hstep hu => ?_) hs
  rcases hstep.stateOf J with heq | ⟨hw, -⟩ | ⟨hf, -⟩
  · unfold Queue.over
    rwa [heq]
  · exact absurd hw hu.unqueued.2
  · exact over_of_state hf rfl

theorem Releases.over (h : Releases s t) (hs : s.over J) : t.over J := by
  rcases h J with heq | ⟨hw, -⟩
  · unfold Queue.over
    rwa [heq]
  · exact absurd (hs _ hw) (by simp [JobState.terminal])

end

/-! ## Retention -/

section

variable {s₀ : Queue} {c : Option Call} {h : Option JobId} {s t u : Queue}

theorem life_unlinkJob (ht : t.life = s.life) (J : JobId) :
    (t.unlinkJob J).life = (s.unlinkJob J).life := by
  have hself (q : Queue) : (q.unlinkJob J).life = q.life.unlinkJob J := by
    have : (fun K => ((q.unlinkJob J).jobs K).map Job.life) =
        Function.update (fun K => (q.jobs K).map Job.life) J none := by
      funext K
      simp only [unlinkJob_jobs, Function.update_apply]
      split <;> rfl
    unfold Queue.life
    rw [this]; rfl
  rw [hself, hself, ht]

theorem life_zremTerminal (ht : t.life = s.life) (k : TerminalSet) (J : JobId) :
    (t.zremTerminal k J).life = (s.zremTerminal k J).life := by
  have hself (q : Queue) : (q.zremTerminal k J).life = q.life.zremTerminal k J := by cases k <;> rfl
  rw [hself, hself, ht]

theorem zremTerminal_unlinkJob (s : Queue) (k : TerminalSet) (J K : JobId) :
    (s.unlinkJob K).zremTerminal k J = (s.zremTerminal k J).unlinkJob K := by
  cases k <;> rfl

theorem mem_terminalSet_zremTerminal (k : TerminalSet) (J K : JobId) :
    K ∈ (s.zremTerminal k J).terminalSet k ↔ K ≠ J ∧ K ∈ s.terminalSet k := by
  cases k <;> exact SortedSet.mem_rem

theorem sweep_qsteps (k : TerminalSet) {unlink : Queue → JobId → Queue}
    (hunlink : ∀ q J, (unlink q J).life = (q.unlinkJob J).life) {ids : List JobId}
    (hnodup : ids.Nodup) (hmem : ∀ J ∈ ids, J ∈ s.terminalSet k) :
    QSteps s₀ c (h, s) (h, ids.foldl (fun q J => q.zremTerminal k J) (ids.foldl unlink s)) := by
  -- The hashes of a sweep go first, then the members. One after the other it is the same.
  have hfold (l : List JobId) (a b : Queue) (hab : a.life = b.life) :
      (l.foldl unlink a).life = (l.foldl unlinkJob b).life := by
    induction l generalizing a b with
    | nil => exact hab
    | cons J l ih => exact ih _ _ ((hunlink a J).trans (life_unlinkJob hab J))
  have hrem (l : List JobId) (a b : Queue) (hab : a.life = b.life) :
      (l.foldl (fun q J => q.zremTerminal k J) a).life =
        (l.foldl (fun q J => q.zremTerminal k J) b).life := by
    induction l generalizing a b with
    | nil => exact hab
    | cons J l ih => exact ih _ _ (life_zremTerminal hab k J)
  have hcomm (l : List JobId) (q : Queue) (J : JobId) :
      (l.foldl unlinkJob q).zremTerminal k J = l.foldl unlinkJob (q.zremTerminal k J) := by
    induction l generalizing q with
    | nil => rfl
    | cons K l ih => rw [List.foldl_cons, List.foldl_cons, ih, zremTerminal_unlinkJob]
  refine QSteps.quiet ?_ (hrem ids _ _ (hfold ids s s rfl))
  induction ids generalizing s with
  | nil => exact .refl
  | cons J ids ih =>
    obtain ⟨hJ, hnodup⟩ := List.nodup_cons.mp hnodup
    simp only [List.foldl_cons]
    rw [hcomm]
    refine .head (.sweep k (hmem J List.mem_cons_self)) (ih hnodup fun K hK => ?_)
    rw [mem_terminalSet_zremTerminal]
    refine ⟨by rintro rfl; exact hJ hK, ?_⟩
    have := hmem K (List.mem_cons_of_mem _ hK)
    cases k <;> exact this

theorem nodup_take_members (z : SortedSet JobId) (n : Nat) : (z.take n).Nodup :=
  z.nodup.sublist (List.take_sublist _ _)

theorem nodup_rangeByScore (z : SortedSet JobId) (lo hi : Int) (n : Nat) :
    (z.rangeByScore lo hi n).Nodup :=
  z.nodup.sublist (((List.take_sublist _ _).trans List.filter_sublist).map _)

theorem retainCount_qsteps (s : Queue) (k : TerminalSet) (n : Nat) :
    QSteps s₀ c (h, s) (h, retainCount s k n) := by
  unfold retainCount
  simp only
  split
  · exact sweep_qsteps k (fun _ _ => rfl) (nodup_take_members _ _) fun J hJ =>
      SortedSet.mem_of_mem_take hJ
  · exact .refl

theorem retainAge_qsteps (s : Queue) (k : TerminalSet) (age : Nat) (timestamp : Int) :
    QSteps s₀ c (h, s) (h, retainAge s k age timestamp) := by
  unfold retainAge
  split
  · exact sweep_qsteps k (fun _ _ => rfl) (nodup_rangeByScore _ _ _ _) fun J hJ =>
      SortedSet.mem_of_mem_rangeByScore hJ
  · exact .refl

/-- The job in hand, after a call that removes it. -/
def handOf (J : JobId) (r : Retention) : Option JobId := if r = .remove then some J else none

theorem retain_qsteps (s : Queue) (k : TerminalSet) (J : JobId) (r : Retention) (timestamp : Int) :
    QSteps s₀ c (handOf J r, s) (none, retain s k J r timestamp) := by
  unfold retain
  cases r with
  | keep => exact .refl
  | remove => exact .single .delete
  | count n => exact retainCount_qsteps s k n
  | ageCount age n => exact (retainAge_qsteps s k age timestamp).trans (retainCount_qsteps _ k n)

theorem over_unlinkJob {J : JobId} (hs : s.over J) (K : JobId) : (s.unlinkJob K).over J := by
  intro st hst
  unfold Queue.stateOf at hst
  simp only [unlinkJob_jobs, Function.update_apply] at hst
  split at hst
  · cases hst
  · exact hs st hst

theorem over_removeExcessJobs {k : TerminalSet} {ids : List JobId} {J : JobId} (hs : s.over J) :
    (removeExcessJobs s k ids).over J := by
  have hstate (q : Queue) (l : List JobId) :
      (l.foldl (fun q K => q.zremTerminal k K) q).stateOf J = q.stateOf J := by
    induction l generalizing q with
    | nil => rfl
    | cons K l ih =>
      refine (ih _).trans ?_
      cases k <;> rfl
  have hgone (q : Queue) (l : List JobId) (hq : q.over J) : (l.foldl unlinkJob q).over J := by
    induction l generalizing q with
    | nil => exact hq
    | cons K l ih => exact ih _ (over_unlinkJob hq K)
  intro st hst
  unfold removeExcessJobs at hst
  rw [hstate] at hst
  exact hgone s ids hs st hst

theorem stateOf_unlinkJob_self (s : Queue) (J : JobId) : (s.unlinkJob J).stateOf J = none := by
  simp [Queue.stateOf]

theorem over_retain {k : TerminalSet} {J : JobId} {r : Retention} {timestamp : Int}
    (hs : r ≠ .remove → s.over J) : (retain s k J r timestamp).over J := by
  have hcount (q : Queue) (n : Nat) (hq : q.over J) : (retainCount q k n).over J := by
    unfold retainCount
    simp only
    split
    · exact over_removeExcessJobs hq
    · exact hq
  unfold retain
  cases r with
  | keep => exact hs (by simp)
  | remove => exact over_of_none (stateOf_unlinkJob_self s J)
  | count n => exact hcount s n (hs (by simp))
  | ageCount age n =>
    refine hcount _ n ?_
    unfold retainAge
    split
    · exact over_removeExcessJobs (hs (by simp))
    · exact hs (by simp)

/-! ## List claims -/

theorem settleListClaim_qsteps {J : JobId} {e : Option Nat}
    (hst : h = some J ∨ s.stateOf J ≠ some .waiting) :
    QSteps s₀ c (h, s) (h, settleListClaim s J e) := by
  have hlife : (decrListActive s J).life = s.life := by
    unfold decrListActive
    simp only
    split <;> rfl
  unfold settleListClaim
  split
  · refine .head (.quiet hlife) (.single (.unclaim (hst.imp_right fun hw => Or.inl ?_)))
    rwa [stateOf_of_life hlife]
  · exact .refl

theorem forgetListClaim_qsteps {J : JobId} {e : Option Nat} (hst : s.stateOf J ≠ some .waiting) :
    QSteps s₀ c (h, s) (h, forgetListClaim s J e) := by
  unfold forgetListClaim
  split
  · have hgone : (s.sremListActiveIds J).stateOf J ≠ some .waiting := hst
    have hquiet : QSteps s₀ c (h, s) (h, s.sremListActiveIds J) := .of_life rfl
    exact hquiet.tail (.unclaim (Or.inr (Or.inl hgone)))
  · exact .refl

theorem forget_qsteps {J : JobId} {group : Group} {e : Option Nat} (hst : s.stateOf J = none)
    (he : OwnEntry s₀ c → EntryOf s J e) :
    QSteps s₀ c (h, s) (h, forgetListClaim (ackDel s group e) J e) := by
  have hne : s.stateOf J ≠ some .waiting := by simp [hst]
  refine .head (.ack (Or.inr (Or.inl hne)) he) (forgetListClaim_qsteps ?_)
  rwa [stateOf_ackDel]

/-! ## Completion -/

theorem completing_qsteps {call : Call} {a : CompleteArgs} (ha : call.completing = some a)
    (hst : s.stateOf a.jobId ≠ none)
    (ht : t.life = ((markCompleted (ackDel s a.group a.entryId) a.jobId a.retention
      a.timestamp).doSlot a.jobId call.completionSlot).life) :
    QSteps s (some call) (none, s) (handOf a.jobId a.retention, t) ∧
      (a.retention ≠ .remove → t.over a.jobId) := by
  unfold markCompleted at ht
  unfold handOf
  by_cases hr : a.retention = .remove
  · rw [if_pos hr] at ht ⊢
    have hwhy : WhyTaken s (some call) s
        { job := a.jobId, group := a.group, entry := a.entryId, state := .completed,
          slot := call.completionSlot } := .complete rfl ha rfl hst hr
    exact ⟨.single (.take hwhy ht), fun hne => absurd hr hne⟩
  · rw [if_neg hr] at ht ⊢
    have hwhy : Why s (some call) s
        { job := a.jobId, group := a.group, entry := a.entryId, place := .completed a.timestamp,
          state := .completed, slot := call.completionSlot } := .complete rfl ha rfl hst hr
    have hlife : t.life = (Move.apply
        { job := a.jobId
          group := a.group
          entry := a.entryId
          place := .completed a.timestamp
          state := .completed
          slot := call.completionSlot } s).life := by
      refine ht.trans (life_doSlot ?_ _ _)
      unfold setCompleted setState
      rw [life_hset, life_hset]
      rfl
    refine ⟨.move hwhy hlife, fun _ => over_of_state ?_ (rfl : JobState.completed.terminal = true)⟩
    rw [stateOf_of_life hlife, stateOf_apply, if_pos rfl]

theorem life_recordCompleted (s : Queue) (skip : Bool) (t d : Int) :
    (if skip then s else recordCompleted s t d).life = s.life := by
  split <;> rfl

theorem complete_qsteps (s : Queue) (a : CompleteArgs) :
    QSteps s (some (.complete a)) (none, s) (none, (complete s a).1) := by
  unfold complete
  simp only
  split
  · exact .refl
  split
  · rename_i hst
    rw [← stateOf_eq] at hst
    exact forget_qsteps hst fun hown => hown _ rfl
  rename_i hst
  rw [← stateOf_eq] at hst
  generalize hu : markOrderingDone (markCompleted _ _ _ _) _ _ _ = u
  have hlife : u.life = (markCompleted (ackDel s a.group a.entryId) a.jobId a.retention
      a.timestamp).life := by
    rw [← hu]
    exact life_of_core (core_markOrderingDone _ _ _ _)
  obtain ⟨hsteps, hover⟩ := completing_qsteps (t := afterRelease u a.jobId none)
    (rfl : (Call.complete a).completing = some a) hst (life_afterRelease hlife a.jobId none)
  have hgroup := releaseGroupSlotAndPromote_steps u a.jobId a.timestamp a.serverNow none
  replace hsteps := hsteps.trans hgroup.qsteps
  replace hover : a.retention ≠ .remove → _ := fun hr => hgroup.over (hover hr)
  generalize releaseGroupSlotAndPromote u _ _ _ _ _ = v at *
  have hrecord := life_recordCompleted v a.skipMetrics a.timestamp
    (a.timestamp - (s.job a.jobId).processedOn.getD a.timestamp)
  generalize (if a.skipMetrics = true then v else _) = w at *
  have htree := life_enqueueTreeParentNotifies w a.jobId (s.job a.jobId).parentQueue
    (s.job a.jobId).parentId (s.job a.jobId).replacedIds
  generalize enqueueTreeParentNotifies w _ _ _ _ = r at *
  obtain ⟨x, ns⟩ := r
  simp only at htree ⊢
  replace hsteps := QSteps.quiet hsteps (htree.trans hrecord)
  replace hover : (retain x .completed a.jobId a.retention a.timestamp).over a.jobId :=
    over_retain fun hr => (over_of_life (htree.trans hrecord)).mpr (hover hr)
  replace hsteps := hsteps.trans (retain_qsteps x .completed a.jobId a.retention a.timestamp)
  have hparents : QSteps s (some (.complete a)) (none, _) (none, _) := completeParents_qsteps
    (retain x .completed a.jobId a.retention a.timestamp) a.jobId (s.job a.jobId).parentQueue
    (s.job a.jobId).parentId ns
  exact (hsteps.trans hparents).trans
    (settleListClaim_qsteps (Or.inr ((completeParents_releases _ _ _ _ _).over hover).unqueued.1))

theorem life_markDoneByHints (s : Queue) (a : CompleteNextArgs) :
    (markDoneByHints s a).life = s.life := by
  unfold markDoneByHints
  split
  · exact life_of_core (core_markOrderingDone _ _ _ _)
  split
  · exact life_of_core (core_markOrderingDone _ _ _ _)
  · rfl

theorem completeInChain_qsteps {s : Queue} {a : CompleteNextArgs} (hst : s.stateOf a.jobId ≠ none)
    (ht : t.life = (ackDel s a.group a.entryId).life) (cur : Job) :
    QSteps s (some (.completeAndFetchNext a)) (none, s) (none, (completeInChain t a cur).1) := by
  unfold completeInChain
  simp only
  have hmarked : (markCompleted t a.jobId a.retention a.timestamp).life =
      (markCompleted (ackDel s a.group a.entryId) a.jobId a.retention a.timestamp).life := by
    unfold markCompleted
    split
    · exact ht
    · exact life_hset_congr (life_put ht a.jobId (.completed a.timestamp)) a.jobId fun _ => rfl
  have hlife := (life_markDoneByHints (markCompleted t a.jobId a.retention a.timestamp) a).trans hmarked
  generalize markDoneByHints _ a = u at *
  obtain ⟨hsteps, hover⟩ := completing_qsteps
    (rfl : (Call.completeAndFetchNext a).completing = some a.toCompleteArgs) hst
    (life_doSlot hlife a.jobId (Call.completeAndFetchNext a).completionSlot)
  have hgroup : GroupSteps (u.doSlot a.jobId (Call.completeAndFetchNext a).completionSlot)
      (if a.groupKey ≠ .absent then
        releaseGroupSlotAndPromote u a.jobId a.timestamp a.serverNow a.groupKey.value false else u) := by
    unfold Call.completionSlot doSlot
    simp only
    by_cases hk : a.groupKey ≠ .absent
    · rw [if_pos hk, if_pos hk]
      exact releaseGroupSlotAndPromote_steps u a.jobId a.timestamp a.serverNow a.groupKey.value
    · rw [if_neg hk, if_neg hk]
  replace hsteps := hsteps.trans hgroup.qsteps
  replace hover : a.retention ≠ .remove → _ := fun hr => hgroup.over (hover hr)
  generalize (if a.groupKey ≠ .absent then _ else u) = v at *
  have hrecord := life_recordCompleted v a.skipMetrics a.timestamp
    (a.timestamp - a.processedOn.getD (cur.processedOn.getD a.timestamp))
  generalize (if a.skipMetrics = true then v else _) = w at *
  have htree := life_enqueueTreeParentNotifies w a.jobId cur.parentQueue cur.parentId cur.replacedIds
  generalize enqueueTreeParentNotifies w _ _ _ _ = r at *
  obtain ⟨x, ns⟩ := r
  simp only at htree ⊢
  replace hsteps := QSteps.quiet hsteps (htree.trans hrecord)
  replace hover : a.retention ≠ .remove → x.over a.jobId := fun hr =>
    (over_of_life (htree.trans hrecord)).mpr (hover hr)
  have hclaim : handOf a.jobId a.retention = some a.jobId ∨ x.stateOf a.jobId ≠ some .waiting := by
    unfold handOf
    by_cases hr : a.retention = .remove
    · exact Or.inl (if_pos hr)
    · exact Or.inr (hover hr).unqueued.1
  replace hsteps := (hsteps.trans (settleListClaim_qsteps (e := a.entryId) hclaim)).trans
    (retain_qsteps _ .completed a.jobId a.retention a.timestamp)
  exact hsteps.trans (completeParents_qsteps _ a.jobId cur.parentQueue cur.parentId ns)

/-! ## Lists -/

theorem list_of_frame (h : t.frame = s.frame) (k : ListKey) : t.list k = s.list k := by
  have hself (q : Queue) : q.frame.list k = q.list k := by cases k <;> rfl
  rw [← hself, h, hself]

theorem list_of_parentFrame (h : t.parentFrame = s.parentFrame) (k : ListKey) :
    t.list k = s.list k := by
  have hself (q : Queue) : q.parentFrame.list k = q.list k := by cases k <;> rfl
  rw [← hself, h, hself]

theorem list_removeExcessJobs (s : Queue) (t : TerminalSet) (ids : List JobId) (k : ListKey) :
    (removeExcessJobs s t ids).list k = s.list k := by
  have hrem (l : List JobId) (q : Queue) :
      (l.foldl (fun q K => q.zremTerminal t K) q).list k = q.list k := by
    induction l generalizing q with
    | nil => rfl
    | cons K l ih =>
      refine (ih _).trans ?_
      cases t <;> cases k <;> rfl
  have hunlink (l : List JobId) (q : Queue) : (l.foldl unlinkJob q).list k = q.list k := by
    induction l generalizing q with
    | nil => rfl
    | cons K l ih =>
      refine (ih _).trans ?_
      cases k <;> rfl
  exact (hrem ids _).trans (hunlink ids s)

theorem list_retain (s : Queue) (t : TerminalSet) (J : JobId) (r : Retention) (timestamp : Int)
    (k : ListKey) : (retain s t J r timestamp).list k = s.list k := by
  have hcount (q : Queue) (n : Nat) : (retainCount q t n).list k = q.list k := by
    unfold retainCount
    simp only
    split
    · exact list_removeExcessJobs _ _ _ _
    · rfl
  unfold retain
  cases r with
  | keep => rfl
  | remove => cases k <;> rfl
  | count n => exact hcount s n
  | ageCount age n =>
    refine (hcount _ n).trans ?_
    unfold retainAge
    split
    · exact list_removeExcessJobs _ _ _ _
    · rfl

theorem list_settleListClaim (s : Queue) (J : JobId) (e : Option Nat) (k : ListKey) :
    (settleListClaim s J e).list k = s.list k := by
  unfold settleListClaim decrListActive
  simp only
  repeat' split
  all_goals cases k <;> rfl

theorem list_forgetListClaim (s : Queue) (J : JobId) (e : Option Nat) (k : ListKey) :
    (forgetListClaim s J e).list k = s.list k := by
  unfold forgetListClaim
  split
  · cases k <;> rfl
  · rfl

theorem list_completeInChain (s : Queue) (a : CompleteNextArgs) (cur : Job) (k : ListKey) :
    (completeInChain s a cur).1.list k = s.list k := by
  unfold completeInChain
  simp only
  rw [list_of_parentFrame (parentFrame_completeParents _ _ _ _ _), list_retain,
    list_settleListClaim, list_of_parentFrame (parentFrame_enqueueTreeParentNotifies _ _ _ _ _)]
  have hrecord (q : Queue) (t d : Int) :
      (if a.skipMetrics then q else recordCompleted q t d).list k = q.list k := by
    split
    · rfl
    · cases k <;> rfl
  rw [hrecord]
  have hmarked : (markDoneByHints (markCompleted s a.jobId a.retention a.timestamp) a).list k =
      s.list k := by
    refine (key_of_life (Queue.list · k) (fun _ => by cases k <;> rfl)
      (life_markDoneByHints _ a)).trans ?_
    unfold markCompleted
    split
    · rfl
    · cases k <;> rfl
  split
  · rw [list_of_frame (frame_releaseGroupSlotAndPromote _ _ _ _ _ _), hmarked]
  · exact hmarked

theorem withinReach_of_list (hlist : ∀ k, t.list k = s.list k) : t.withinReach = s.withinReach := by
  funext k
  unfold Queue.withinReach
  rw [hlist]

theorem fetch_qsteps {call : Call} (hc : call.chains) (hlist : ∀ k, t.list k = s.list k)
    (a : FetchArgs) :
    QSteps s (some call) (none, t) (none, (fetchNextForChain t a).1) := by
  have hsteps := fetchNextForChain_steps t a
  rw [withinReach_of_list hlist] at hsteps
  exact hsteps.qsteps ⟨call, rfl, hc⟩

theorem completeAndFetchNext_qsteps (s : Queue) (a : CompleteNextArgs) :
    QSteps s (some (.completeAndFetchNext a)) (none, s) (none, (completeAndFetchNext s a).1) := by
  unfold completeAndFetchNext
  simp only
  split
  · exact .refl
  have hbegin : (ackDel (beginChain s) a.group a.entryId).life = (ackDel s a.group a.entryId).life :=
    life_ackDel (t := beginChain s) (s := s) rfl a.group a.entryId
  have hlist (k : ListKey) : (ackDel (beginChain s) a.group a.entryId).list k = s.list k := by
    rw [ackDel_list]
    cases k <;> rfl
  -- the completion
  generalize hr : (if (s.job a.jobId).state = none then _ else _) = r
  have hsettled : QSteps s (some (.completeAndFetchNext a)) (none, s) (none, r.1) ∧
      ∀ k, r.1.list k = s.list k := by
    by_cases hst : (s.job a.jobId).state = none
    · rw [if_pos hst] at hr
      subst hr
      rw [← stateOf_eq] at hst
      refine ⟨.head (.quiet (t := beginChain s) rfl) (forget_qsteps hst fun hown => hown _ rfl),
        fun k => ?_⟩
      rw [list_forgetListClaim, hlist]
    · rw [if_neg hst] at hr
      subst hr
      rw [← stateOf_eq] at hst
      exact ⟨completeInChain_qsteps hst hbegin _, fun k => by rw [list_completeInChain, hlist]⟩
  obtain ⟨t, ns⟩ := r
  obtain ⟨hsteps, hlists⟩ := hsettled
  simp only at hsteps hlists ⊢
  -- the fetch
  have hfetch : QSteps s (some (.completeAndFetchNext a)) (none, t)
      (none, (if t.paused then (t, ChainNext.none) else fetchNextForChain t a.fetch).1) := by
    split
    · exact .refl
    · exact fetch_qsteps rfl hlists a.fetch
  exact QSteps.quiet (hsteps.trans hfetch) rfl

/-! ## Failure -/

theorem slotOf_steps (s : Queue) (J : JobId) (now serverNow : Int) :
    GroupSteps (s.doSlot J (slotOf s J)) (keepOrReleaseSlot s J now serverNow) := by
  unfold slotOf keepOrReleaseSlot
  by_cases hseq : 0 < (s.job J).orderingSeq
  · rw [if_pos hseq, if_pos hseq]
    exact .refl
  · rw [if_neg hseq, if_neg hseq]
    exact releaseGroupSlotAndPromote_steps s J now serverNow none

theorem slotOf_of_seq {J : JobId} (h : (t.job J).orderingSeq = (s.job J).orderingSeq) :
    slotOf t J = slotOf s J := by
  unfold slotOf
  rw [h]

theorem failRetry_qsteps {call : Call} {a : FailArgs} (ha : call.failing = some a)
    (hj : s.jobs a.jobId ≠ none) (hagain : call.requeues s) (ht : t.life = (ackDel s a.group a.entryId).life)
    (requeueOnly : Bool) :
    QSteps s (some call) (none, s) (none, failRetry t a requeueOnly) := by
  have htj : t.jobs a.jobId ≠ none := by
    intro hn
    refine hj ?_
    have := (jobs_none_of_life ht a.jobId).mp hn
    cases hentry : a.entryId <;> rw [hentry] at this <;> exact this
  unfold failRetry
  simp only
  generalize hu : (if ¬ requeueOnly = true ∧ (t.job a.jobId).opts.fallbacks = true then _ else t) = u
  have hlife : u.life = (ackDel s a.group a.entryId).life := by
    rw [← hu]
    split
    · have hself := life_hset_self htj (f := fun j => { j with fallbackIndex := j.fallbackIndex + 1 })
        fun _ => rfl
      exact hself.trans ht
    · exact ht
  generalize hscore : ((u.job a.jobId).priority : Int) * priorityShift + _ = x
  generalize hv : hset _ _ _ = v
  have hv : v.life = (((ackDel s a.group a.entryId).zaddScheduled a.jobId x).setState a.jobId
      .delayed).life := by
    refine Eq.trans ?_ (life_setState (life_put hlife a.jobId (.scheduled x)) a.jobId .delayed)
    rw [← hv]
    unfold setState
    rw [life_hset, life_hset]
    rfl
  have hseq : (v.job a.jobId).orderingSeq = (s.job a.jobId).orderingSeq := by
    rw [job_of_life Job.orderingSeq (fun _ => rfl) hv, job_setState Job.orderingSeq fun _ _ => rfl]
    cases a.entryId <;> rfl
  have hwhy : Why s (some call) s
      { job := a.jobId, group := a.group, entry := a.entryId, place := .scheduled x,
        state := .delayed, slot := slotOf s a.jobId } := .retry rfl ha rfl hj hagain
  have hmove : (v.doSlot a.jobId (slotOf v a.jobId)).life = (Move.apply
      { job := a.jobId
        group := a.group
        entry := a.entryId
        place := .scheduled x
        state := .delayed
        slot := slotOf s a.jobId } s).life := by
    rw [slotOf_of_seq hseq]
    exact life_doSlot hv _ _
  have hgroup := slotOf_steps v a.jobId a.timestamp a.serverNow
  have hunqueued : (v.doSlot a.jobId (slotOf v a.jobId)).unqueued a.jobId := by
    simp [Queue.unqueued, stateOf_of_life hmove, stateOf_apply]
  exact ((QSteps.move hwhy hmove).trans hgroup.qsteps).trans
    (settleListClaim_qsteps (Or.inr (hgroup.unqueued hunqueued).1))

theorem failFinal_qsteps {call : Call} {a : FailArgs} (ha : call.failing = some a)
    (hj : s.jobs a.jobId ≠ none) (ht : t.life = (ackDel s a.group a.entryId).life)
    (processedOn : Int) :
    QSteps s (some call) (none, s) (none, failFinal t a processedOn) := by
  unfold failFinal
  simp only
  generalize hu : markOrderingDone (markFailed t a) a.jobId none none = u
  have hmarked : u.life = (markFailed t a).life := by
    rw [← hu]
    exact life_of_core (core_markOrderingDone _ _ _ _)
  have hstart : QSteps s (some call) (none, s)
      (handOf a.jobId a.retention, u.doSlot a.jobId (.release none)) ∧
      (a.retention ≠ .remove → (u.doSlot a.jobId (.release none)).over a.jobId) := by
    unfold markFailed at hmarked
    unfold handOf
    by_cases hr : a.retention = .remove
    · rw [if_pos hr] at hmarked ⊢
      have hwhy : WhyTaken s (some call) s
          { job := a.jobId, group := a.group, entry := a.entryId, state := .failed,
            slot := .release none } := .fail rfl ha rfl hj hr
      exact ⟨.single (.take hwhy (life_doSlot (hmarked.trans ht) _ _)), fun hne => absurd hr hne⟩
    · rw [if_neg hr] at hmarked ⊢
      have hwhy : Why s (some call) s
          { job := a.jobId, group := a.group, entry := a.entryId, place := .failed a.timestamp,
            state := .failed, slot := .release none } := .fail rfl ha rfl hj hr
      have hlife : (u.doSlot a.jobId (.release none)).life = (Move.apply
          { job := a.jobId
            group := a.group
            entry := a.entryId
            place := .failed a.timestamp
            state := .failed
            slot := .release none } s).life := by
        refine life_doSlot (hmarked.trans (Eq.trans ?_
          (life_setState (life_put ht a.jobId (.failed a.timestamp)) a.jobId .failed))) _ _
        unfold setState
        rw [life_hset, life_hset]
        rfl
      refine ⟨.move hwhy hlife, fun _ => over_of_state ?_ (rfl : JobState.failed.terminal = true)⟩
      rw [stateOf_of_life hlife, stateOf_apply, if_pos rfl]
  obtain ⟨hsteps, hover⟩ := hstart
  have hgroup := releaseGroupSlotAndPromote_steps u a.jobId a.timestamp a.serverNow none
  replace hsteps := hsteps.trans hgroup.qsteps
  replace hover : a.retention ≠ .remove → _ := fun hr => hgroup.over (hover hr)
  generalize releaseGroupSlotAndPromote u _ _ _ _ _ = v at *
  have hrecord : (if a.skipMetrics then v
      else recordFailed v a.timestamp (a.timestamp - processedOn)).life = v.life := by
    split <;> rfl
  generalize (if a.skipMetrics = true then v else _) = w at *
  replace hsteps := (QSteps.quiet hsteps hrecord).trans
    (retain_qsteps w .failed a.jobId a.retention a.timestamp)
  have hlast : (retain w .failed a.jobId a.retention a.timestamp).over a.jobId := over_retain
    fun hr => (over_of_life hrecord).mpr (hover hr)
  exact hsteps.trans (settleListClaim_qsteps (Or.inr hlast.unqueued.1))

theorem failJobCore_qsteps {call : Call} {a : FailArgs} (ha : call.failing = some a)
    (hown : call.ownEntry s → EntryOf s a.jobId a.entryId) (ht : t.life = s.life)
    (requeueOnly : Bool) (hagain : requeueOnly ∨ a.again t → call.requeues s) :
    QSteps s (some call) (none, s) (none, (failJobCore t a requeueOnly).1) := by
  unfold failJobCore
  simp only
  have hack : (ackDel t a.group a.entryId).life = (ackDel s a.group a.entryId).life :=
    life_ackDel ht a.group a.entryId
  have hjobs (q : Queue) : (ackDel q a.group a.entryId).jobs = q.jobs := by cases a.entryId <;> rfl
  split
  · rename_i hgone
    rw [hjobs] at hgone
    refine (QSteps.of_life ht).trans (forget_qsteps (by simp [Queue.stateOf, hgone]) fun hs => ?_)
    exact (entryOf_of_life ht).mpr (hown (hs call rfl))
  · rename_i hj
    have hsj : s.jobs a.jobId ≠ none := by
      rw [hjobs] at hj
      exact fun hn => hj ((jobs_none_of_life ht a.jobId).mpr hn)
    generalize hu : (if requeueOnly = true then _ else _) = u
    have hlife : u.life = (ackDel s a.group a.entryId).life := by
      rw [← hu]
      split
      · exact hack
      · have hself := life_hset_self hj (f := fun j => { j with attemptsMade := j.attemptsMade + 1 })
          fun _ => rfl
        exact hself.trans hack
    split
    · rename_i hretry
      have hattempts (hr : ¬ requeueOnly) :
          (u.job a.jobId).attemptsMade = (t.job a.jobId).attemptsMade + 1 := by
        rw [← hu, if_neg hr]
        simp [Queue.job]
      refine failRetry_qsteps ha hsj (hagain ?_) hlife requeueOnly
      by_cases hr : requeueOnly
      · exact Or.inl hr
      · refine Or.inr ?_
        rw [hattempts hr] at hretry
        exact hretry.resolve_left hr
    · exact failFinal_qsteps ha hsj hlife _

theorem fail_qsteps (s : Queue) (a : FailArgs) (requeueOnly : Bool) :
    QSteps s (some (.fail a requeueOnly)) (none, s) (none, (fail s a requeueOnly).1) :=
  failJobCore_qsteps rfl id rfl requeueOnly id

theorem list_failJobCore (s : Queue) (a : FailArgs) (requeueOnly : Bool) (k : ListKey) :
    (failJobCore s a requeueOnly).1.list k = s.list k := by
  have hset (q : Queue) (J : JobId) (f : Job → Job) : (q.hset J f).list k = q.list k := by
    cases k <;> rfl
  have hrelease (q : Queue) (J : JobId) (now serverNow : Int) :
      (releaseGroupSlotAndPromote q J now serverNow none false).list k = q.list k :=
    list_of_frame (frame_releaseGroupSlotAndPromote _ _ _ _ _ _) k
  have hretry (q : Queue) : (failRetry q a requeueOnly).list k = q.list k := by
    unfold failRetry
    simp only
    rw [list_settleListClaim]
    have hscheduled (r : Queue) (x : Int) : (r.zaddScheduled a.jobId x).list k = r.list k := by
      cases k <;> rfl
    repeat' split
    all_goals simp only [hset, hrelease, hscheduled]
  have hfinal (q : Queue) (p : Int) : (failFinal q a p).list k = q.list k := by
    unfold failFinal markFailed
    simp only
    rw [list_settleListClaim, list_retain]
    have hrecord (r : Queue) (x y : Int) : (recordFailed r x y).list k = r.list k := by
      cases k <;> rfl
    have hfailed (r : Queue) (x : Int) : (r.zaddFailed a.jobId x).list k = r.list k := by
      cases k <;> rfl
    have hdone (r : Queue) : (markOrderingDone r a.jobId none none).list k = r.list k :=
      list_of_core (core_markOrderingDone _ _ _ _) k
    repeat' split
    all_goals simp only [hset, hrelease, hrecord, hfailed, hdone]
  unfold failJobCore
  simp only
  repeat' split
  all_goals simp only [list_forgetListClaim, ackDel_list, hretry, hfinal, hset]

theorem failAndFetchNext_qsteps (s : Queue) (a : FailArgs) (consumer : String) :
    QSteps s (some (.failAndFetchNext a consumer)) (none, s) (none, (failAndFetchNext s a consumer).1) := by
  unfold failAndFetchNext
  simp only
  have hsettled : QSteps s (some (.failAndFetchNext a consumer)) (none, s)
      (none, (failJobCore (beginChain s) a false).1) :=
    failJobCore_qsteps (s := s) (t := beginChain s) rfl id rfl false fun hagain =>
      hagain.resolve_left (by simp)
  have hlists (k : ListKey) : (failJobCore (beginChain s) a false).1.list k = s.list k := by
    rw [list_failJobCore]
    cases k <;> rfl
  generalize failJobCore (beginChain s) a false = r at *
  obtain ⟨t, result⟩ := r
  simp only at hsettled hlists ⊢
  have hfetch : QSteps s (some (.failAndFetchNext a consumer)) (none, t) (none,
      (if consumer = "" ∨ t.paused then (t, ChainNext.none)
        else fetchNextForChain t (a.fetch consumer)).1) := by
    split
    · exact .refl
    · exact fetch_qsteps rfl hlists _
  exact QSteps.quiet (hsettled.trans hfetch) rfl

end

end GlideMq
