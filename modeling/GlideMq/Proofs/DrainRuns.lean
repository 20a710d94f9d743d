import GlideMq.Proofs.ManageRuns

/-!
# Draining and retrying as a run of steps

`drain` deletes the jobs that wait, container by container, and lets the groups that lost one go on.
`retryJobs` takes failed jobs back, batch by batch.
-/

namespace GlideMq

open Queue Redis

section

variable {s₀ : Queue} {c : Option Call} {h : Option JobId} {s t u : Queue}

/-! ## Draining -/

/-- A drained job is gone, and the containers are as they were. -/
structure Drained (s t : Queue) (J : JobId) : Prop where
  life : t.life = ((closeOrderingHole s J).unlinkJob J).life
  stream : t.stream = s.stream
  scheduled : t.scheduled = s.scheduled
  list : ∀ k, t.list k = s.list k
  gone : ∀ K, K = J ∨ s.jobs K = none → t.jobs K = none

theorem closeDrainedOrdering_spec (r : Queue × List GroupKey) (J : JobId) :
    (closeDrainedOrdering r J).1.life = (closeOrderingHole r.1 J).life ∧
      (closeDrainedOrdering r J).1.stream = r.1.stream ∧
      (closeDrainedOrdering r J).1.frame = r.1.frame := by
  obtain ⟨s, gs⟩ := r
  unfold closeDrainedOrdering
  simp only
  cases hkey : (s.job J).groupKey with
  | none =>
    have hsame : closeOrderingHole s J = s := by
      simp [closeOrderingHole, getD_jobs, hkey]
    simp [hsame]
  | some gk =>
    refine ⟨?_, ?_, ?_⟩
    · exact life_closeOrderingHole (life_of_core (core_markOrderingDone s J none none)) J
    · simp
    · simp

theorem drainJob_drained (r : Queue × List GroupKey) (J : JobId) : Drained r.1 (drainJob r J).1 J := by
  obtain ⟨hlife, hstream, hframe⟩ := closeDrainedOrdering_spec r J
  have hjob : (drainJob r J).1 = unlinkDrained (closeDrainedOrdering r J).1 J := rfl
  have hkey {α : Type} (f : Queue → α) (hf : ∀ q, f q.frame = f q) :
      f (closeDrainedOrdering r J).1 = f r.1 := by rw [← hf, hframe, hf]
  rw [hjob]
  refine ⟨life_unlinkJob hlife J, hstream, ?_, ?_, ?_⟩
  · exact hkey Queue.scheduled fun _ => rfl
  · intro k
    cases k with
    | priority => exact hkey Queue.priorityList fun _ => rfl
    | lifo => exact hkey Queue.lifoList fun _ => rfl
  · rintro K hK
    simp only [unlinkDrained, unlinkDeps_jobs, unlinkJob_jobs, Function.update_apply]
    split
    · rfl
    · rename_i hne
      exact (frame_jobs_none hframe K).mpr (hK.resolve_left hne)

/-- What is left of the drained queue: the groups it noted play no part. -/
structure Draining (s₀ : Queue) (c : Option Call) (s t : Queue) : Prop where
  steps : QSteps s₀ c (none, s) (none, t)
  scheduled : t.scheduled = s.scheduled
  list : ∀ k, t.list k = s.list k
  gone : ∀ K, s.jobs K = none → t.jobs K = none

theorem Draining.refl (s : Queue) : Draining s₀ c s s := ⟨.refl, rfl, fun _ => rfl, fun _ hK => hK⟩

theorem Draining.trans (h₁ : Draining s₀ c s t) (h₂ : Draining s₀ c t u) : Draining s₀ c s u where
  steps := h₁.steps.trans h₂.steps
  scheduled := h₂.scheduled.trans h₁.scheduled
  list k := (h₂.list k).trans (h₁.list k)
  gone K hK := h₂.gone K (h₁.gone K hK)

theorem Drained.draining {J : JobId} (hd : Drained s t J) (hc : Drains s₀ c J) : Draining s₀ c s t where
  steps := .single (.drain hc hd.life)
  scheduled := hd.scheduled
  list := hd.list
  gone K hK := hd.gone K (Or.inr hK)

theorem drainJobs_draining {ids : List JobId} (hc : ∀ J ∈ ids, Drains s₀ c J)
    (r : Queue × List GroupKey) :
    Draining s₀ c r.1 (ids.foldl drainJob r).1 ∧ ∀ J ∈ ids, (ids.foldl drainJob r).1.jobs J = none := by
  induction ids generalizing r with
  | nil => exact ⟨.refl _, by simp⟩
  | cons J ids ih =>
    have hd := drainJob_drained r J
    obtain ⟨hrest, hgone⟩ := ih (fun K hK => hc K (List.mem_cons_of_mem _ hK)) (drainJob r J)
    refine ⟨(hd.draining (hc J List.mem_cons_self)).trans hrest, fun K hK => ?_⟩
    rcases List.mem_cons.mp hK with rfl | hK
    · exact hrest.gone K (hd.gone K (Or.inl rfl))
    · exact hgone K hK

theorem life_xdel_eq (s : Queue) (e : Nat) : (s.xdel e).life = (ackDel s "" (some e)).life := rfl

theorem drainEntry_draining {e : Entry JobEntry} (hc : Drains s₀ c e.val.jobId)
    (r : Queue × List GroupKey) (he : EntryOf r.1 e.val.jobId (some e.id)) :
    Draining s₀ c r.1 (drainEntry r e).1 := by
  have hxdel (q : Queue) (hq : q.stateOf e.val.jobId ≠ some .waiting ∨ e.val.jobId = "")
      (hown : EntryOf q e.val.jobId (some e.id)) : Draining s₀ c q (q.xdel e.id) := by
    have hack : QStep s₀ c (none, q) (none, ackDel q "" (some e.id)) :=
      .ack (Or.inr hq) fun _ => hown
    exact ⟨QSteps.quiet (.single hack) (life_xdel_eq q e.id), rfl, fun k => by cases k <;> rfl,
      fun K hK => hK⟩
  unfold drainEntry
  by_cases hempty : e.val.jobId = ""
  · simp only [if_pos hempty]
    exact hxdel r.1 (Or.inr hempty) he
  · simp only [if_neg hempty]
    have hd := drainJob_drained r e.val.jobId
    have hgone : (drainJob r e.val.jobId).1.stateOf e.val.jobId = none := by
      simp [Queue.stateOf, hd.gone _ (Or.inl rfl)]
    have hdraining := hd.draining hc
    exact hdraining.trans (hxdel _ (Or.inl (by simp [hgone])) (he.extends hdraining.steps.extends))

theorem drainEntries_draining {es : List (Entry JobEntry)} (hc : ∀ e ∈ es, Drains s₀ c e.val.jobId)
    (r : Queue × List GroupKey) (he : ∀ e ∈ es, EntryOf r.1 e.val.jobId (some e.id)) :
    Draining s₀ c r.1 (es.foldl drainEntry r).1 := by
  induction es generalizing r with
  | nil => exact .refl _
  | cons e es ih =>
    have hfirst := drainEntry_draining (hc e List.mem_cons_self) r (he e List.mem_cons_self)
    refine hfirst.trans (ih (fun e' he' => hc e' (List.mem_cons_of_mem _ he')) _ fun e' he' => ?_)
    exact (he e' (List.mem_cons_of_mem _ he')).extends hfirst.steps.extends

theorem promoteDrained_steps (serverNow : Int) (s : Queue) (gk : GroupKey) :
    GroupSteps s (promoteDrained serverNow s gk) := by
  unfold promoteDrained
  split
  · exact releaseKeepingSlot_steps s "" serverNow serverNow (some gk)
  · exact .refl

theorem foldl_promoteDrained_steps (serverNow : Int) (gks : List GroupKey) (s : Queue) :
    GroupSteps s (gks.foldl (promoteDrained serverNow) s) := by
  induction gks generalizing s with
  | nil => exact .refl
  | cons gk gks ih => exact (promoteDrained_steps serverNow s gk).trans (ih _)

/-- The scheduled set of `drain`. -/
def drainScheduled (r : Queue × List GroupKey) (drainDelayed : Bool) : Queue × List GroupKey :=
  if drainDelayed then
    let (s, groups) := r.1.scheduled.members.foldl drainJob r
    (s.unlinkScheduled, groups)
  else r

theorem drainScheduled_qsteps {r : Queue × List GroupKey} {drainDelayed : Bool}
    (hc : drainDelayed → ∀ J ∈ r.1.scheduled, Drains s₀ c J) :
    QSteps s₀ c (none, r.1) (none, (drainScheduled r drainDelayed).1) ∧
      ∀ k, (drainScheduled r drainDelayed).1.list k = r.1.list k := by
  unfold drainScheduled
  split
  · rename_i hdelayed
    obtain ⟨hdrained, hgone⟩ := drainJobs_draining (hc hdelayed) r
    refine ⟨hdrained.steps.tail (.clearScheduled fun J hJ => hgone J ?_), fun k => ?_⟩
    · rw [hdrained.scheduled] at hJ
      exact hJ
    · have hlist := hdrained.list k
      cases k <;> exact hlist
  · exact ⟨.refl, fun _ => rfl⟩

/-- One list of `drain`. -/
def drainList (k : ListKey) (r : Queue × List GroupKey) : Queue × List GroupKey :=
  let (s, groups) := (r.1.list k).foldl drainJob r
  (match k with | .priority => s.unlinkPriority | .lifo => s.unlinkLifo, groups)

theorem drainList_qsteps {k : ListKey} {r : Queue × List GroupKey}
    (hc : ∀ J ∈ r.1.list k, Drains s₀ c J) :
    QSteps s₀ c (none, r.1) (none, (drainList k r).1) ∧
      ∀ k', k' ≠ k → (drainList k r).1.list k' = r.1.list k' := by
  obtain ⟨hdrained, hgone⟩ := drainJobs_draining hc r
  have hcleared (J : JobId) (hJ : J ∈ ((r.1.list k).foldl drainJob r).1.list k) :
      ((r.1.list k).foldl drainJob r).1.jobs J = none := hgone J (by rwa [hdrained.list k] at hJ)
  cases k with
  | priority =>
    refine ⟨hdrained.steps.tail (.clearList .priority hcleared), fun k' hne => ?_⟩
    cases k' with
    | priority => exact absurd rfl hne
    | lifo => exact hdrained.list .lifo
  | lifo =>
    refine ⟨hdrained.steps.tail (.clearList .lifo hcleared), fun k' hne => ?_⟩
    cases k' with
    | priority => exact hdrained.list .priority
    | lifo => exact absurd rfl hne

theorem drain_eq (s : Queue) (drainDelayed : Bool) (group : Group) (serverNow : Int) :
    drain s drainDelayed group serverNow =
      (let r := drainList .priority (drainList .lifo
        (drainScheduled ((undelivered s group).foldl drainEntry (s, [])) drainDelayed))
      r.2.foldl (promoteDrained serverNow) r.1) := rfl

theorem drain_qsteps (s : Queue) (drainDelayed : Bool) (group : Group) (serverNow : Int) :
    QSteps s (some (.drain drainDelayed group serverNow)) (none, s)
      (none, drain s drainDelayed group serverNow) := by
  have hdrains (J : JobId) (hJ : (∃ e ∈ undelivered s group, e.val.jobId = J) ∨
      (drainDelayed ∧ J ∈ s.scheduled) ∨ J ∈ s.lifoList ∨ J ∈ s.priorityList) :
      Drains s (some (.drain drainDelayed group serverNow)) J :=
    ⟨drainDelayed, group, serverNow, rfl, hJ⟩
  rw [drain_eq]
  have hentries := drainEntries_draining (fun e (he : e ∈ undelivered s group) =>
    hdrains _ (Or.inl ⟨e, he, rfl⟩)) (s, []) fun e he => entryOf_mem (List.mem_filter.mp he).1
  generalize (undelivered s group).foldl drainEntry (s, []) = r at *
  obtain ⟨hscheduled, hlists⟩ := drainScheduled_qsteps fun (hdelayed : drainDelayed) J
      (hJ : J ∈ r.1.scheduled) =>
    hdrains J (Or.inr (Or.inl ⟨hdelayed, by rwa [hentries.scheduled] at hJ⟩))
  replace hlists (k : ListKey) := (hlists k).trans (hentries.list k)
  generalize drainScheduled r drainDelayed = v at *
  obtain ⟨hlifo, hpriority⟩ := drainList_qsteps (k := .lifo) fun J (hJ : J ∈ v.1.list .lifo) =>
    hdrains J (Or.inr (Or.inr (Or.inl (by rwa [hlists .lifo] at hJ))))
  replace hpriority := (hpriority .priority (by simp)).trans (hlists .priority)
  generalize drainList .lifo v = w at *
  obtain ⟨hlast, -⟩ := drainList_qsteps (k := .priority) fun J (hJ : J ∈ w.1.list .priority) =>
    hdrains J (Or.inr (Or.inr (Or.inr (by rwa [hpriority] at hJ))))
  exact (((hentries.steps.trans hscheduled).trans hlifo).trans hlast).trans
    (foldl_promoteDrained_steps serverNow _ _).qsteps

/-! ## Retrying -/

/-- One id of a batch, taken out of the failed set. -/
def retryTaken (timestamp : Int) (s : Queue) (J : JobId) : Queue :=
  if s.jobs J = none then s.zremFailed J else retryFailedJob (s.zremFailed J) J timestamp

theorem retryFailedJob_zremFailed (s : Queue) (J K : JobId) (timestamp : Int) :
    retryFailedJob (s.zremFailed K) J timestamp = (retryFailedJob s J timestamp).zremFailed K := by
  have hjob : (s.zremFailed K).job J = s.job J := rfl
  unfold retryFailedJob issueSeq
  simp only [hjob]
  split <;> rfl

theorem retryOne_zremFailed (timestamp : Int) (s : Queue) (n : Nat) (J K : JobId) :
    (retryOne timestamp (s.zremFailed K, n) J).1 = (retryOne timestamp (s, n) J).1.zremFailed K := by
  unfold retryOne
  have hjobs : (s.zremFailed K).jobs = s.jobs := rfl
  simp only [hjobs]
  split
  · rfl
  · exact retryFailedJob_zremFailed s J K timestamp

theorem retryOne_foldl_zremFailed (timestamp : Int) (ids : List JobId) (s : Queue) (n : Nat)
    (J : JobId) :
    (retryOne timestamp (ids.foldl zremFailed s, n) J).1 =
      ids.foldl zremFailed (retryOne timestamp (s, n) J).1 := by
  induction ids generalizing s with
  | nil => rfl
  | cons K ids ih =>
    rw [List.foldl_cons, List.foldl_cons, ih, retryOne_zremFailed]

theorem retryOne_taken (timestamp : Int) (s : Queue) (n : Nat) (J : JobId) :
    (retryOne timestamp (s.zremFailed J, n) J).1 = retryTaken timestamp s J := by
  unfold retryOne retryTaken
  split
  · rename_i hj
    exact (if_pos hj).symm
  · rename_i hj
    exact (if_neg hj).symm

theorem retryBatch_eq (timestamp : Int) (ids : List JobId) (s : Queue) (n : Nat) :
    (ids.foldl (retryOne timestamp) (ids.foldl zremFailed s, n)).1 =
      ids.foldl (retryTaken timestamp) s := by
  -- The ids leave the failed set first, and then the jobs are retried. One after the other it is the same.
  induction ids generalizing s n with
  | nil => rfl
  | cons J ids ih =>
    rw [List.foldl_cons, List.foldl_cons, List.foldl_cons]
    have hfirst := retryOne_foldl_zremFailed timestamp ids (s.zremFailed J) n J
    rw [retryOne_taken] at hfirst
    generalize retryOne timestamp (ids.foldl zremFailed (s.zremFailed J), n) J = r at *
    obtain ⟨q, m⟩ := r
    simp only at hfirst
    subst hfirst
    exact ih _ m

theorem failed_retryTaken (timestamp : Int) (s : Queue) (J K : JobId) :
    K ∈ (retryTaken timestamp s J).failed ↔ K ≠ J ∧ K ∈ s.failed := by
  have hfailed : (retryTaken timestamp s J).failed = s.failed.rem J := by
    unfold retryTaken
    split
    · rfl
    · unfold retryFailedJob issueSeq
      simp only
      split <;> rfl
  rw [hfailed]
  exact SortedSet.mem_rem

theorem retryTaken_qstep {timestamp : Int} {J : JobId} (hc : Retries c) (hmem : J ∈ s.failed) :
    QStep s₀ c (h, s) (h, retryTaken timestamp s J) := by
  unfold retryTaken
  split
  · rename_i hj
    exact .unend .failed (Or.inr hj)
  · rename_i hj
    exact .retry hc (Or.inl hmem) hj rfl

theorem retryBatch_qsteps {timestamp : Int} {ids : List JobId} (hc : Retries c) (hnodup : ids.Nodup)
    (hmem : ∀ J ∈ ids, J ∈ s.failed) :
    QSteps s₀ c (h, s) (h, ids.foldl (retryTaken timestamp) s) := by
  induction ids generalizing s with
  | nil => exact .refl
  | cons J ids ih =>
    obtain ⟨hJ, hnodup⟩ := List.nodup_cons.mp hnodup
    refine .head (retryTaken_qstep hc (hmem J List.mem_cons_self)) (ih hnodup fun K hK => ?_)
    rw [failed_retryTaken]
    exact ⟨by rintro rfl; exact hJ hK, hmem K (List.mem_cons_of_mem _ hK)⟩

theorem retryBatches_qsteps (hc : Retries c) (count : Nat) (timestamp : Int) (fuel : Nat)
    (r : Queue × Nat) :
    QSteps s₀ c (h, r.1) (h, (retryBatches count timestamp fuel r).1) := by
  induction fuel generalizing r with
  | zero => exact .refl
  | succ fuel ih =>
    obtain ⟨s, retried⟩ := r
    unfold retryBatches
    simp only
    split
    · exact .refl
    generalize (if 0 < count then min 1000 (count - retried) else 1000) = n
    split
    · exact .refl
    refine Relation.ReflTransGen.trans ?_ (ih _)
    rw [retryBatch_eq]
    refine retryBatch_qsteps hc (nodup_take_members s.failed n) fun J hJ => ?_
    exact SortedSet.mem_of_mem_take hJ

theorem retryJobs_qsteps (s : Queue) (count : Nat) (timestamp : Int) :
    QSteps s₀ (some (.retryJobs count timestamp)) (h, s) (h, (retryJobs s count timestamp).1) :=
  retryBatches_qsteps (Or.inl ⟨count, timestamp, rfl⟩) count timestamp _ (s, 0)

theorem retryJob_qsteps (s : Queue) (J : JobId) (timestamp : Int) :
    QSteps s₀ (some (.retryJob J timestamp)) (h, s) (h, (retryJob s J timestamp).1) := by
  unfold retryJob
  split
  · exact .refl
  · rename_i hst
    have hj : s.jobs J ≠ none := jobs_ne_none_of_stateOf hst
    exact .single (.retry (Or.inr ⟨J, timestamp, rfl⟩) (Or.inr hst) hj rfl)
  · exact .refl

/-! ## Dependencies -/

theorem registerChildDep_qsteps (s : Queue) (P : JobId) (m : DepMember) :
    QSteps s₀ c (h, s) (h, (registerChildDep s P m).1) := by
  unfold registerChildDep
  simp only
  split
  · exact .of_life rfl
  have hcounted := life_countEarlyDeps (s.saddDeps P m) P
  split
  · exact (QSteps.of_life (s := s) hcounted).trans (releaseParentIfReady_qsteps _ P)
  · exact QSteps.of_life (s := s) hcounted

theorem healParent_qsteps (r : Queue × Nat) (P : JobId) :
    QSteps s₀ c (h, r.1) (h, (healParent r P).1) := by
  unfold healParent
  simp only
  split
  · exact .of_life rfl
  have hsteps : QSteps s₀ c (h, r.1) (h,
      if (countEarlyDeps r.1 P).2 = true then (releaseParentIfReady (countEarlyDeps r.1 P).1 P).1
      else (countEarlyDeps r.1 P).1) := by
    refine Relation.ReflTransGen.trans (QSteps.of_life (life_countEarlyDeps r.1 P)) ?_
    split
    · exact releaseParentIfReady_qsteps _ P
    · exact .refl
  generalize (if (countEarlyDeps r.1 P).2 = true then _ else _ : Queue) = t at *
  split
  · exact QSteps.quiet hsteps rfl
  · exact hsteps

theorem healEarlyDeps_qsteps (s : Queue) (page : List JobId) :
    QSteps s₀ c (h, s) (h, (healEarlyDeps s page).1) := by
  have hfold (l : List JobId) (r : Queue × Nat) :
      QSteps s₀ c (h, r.1) (h, (l.foldl healParent r).1) := by
    induction l generalizing r with
    | nil => exact .refl
    | cons P l ih => exact (healParent_qsteps r P).trans (ih _)
  exact hfold _ (s, 0)

end

end GlideMq
