import GlideMq.Model.Parents
import GlideMq.Proofs.Frame

/-!
# What the parent bookkeeping leaves alone

Counting a child for its parents touches the parents' dependency fields and state, the stream and
the two indexes of early and pending notifications, and nothing else.
-/

namespace GlideMq

open Queue

/-- The fields of a job hash that the parent bookkeeping leaves alone. -/
def Job.fixedByParents (j : Job) : Job :=
  { j with state := none, depsCompleted := 0, depsEarly := 0, depdone := [], depearly := [] }

/-- The keys that the parent bookkeeping leaves alone. -/
def Queue.parentFrame (s : Queue) : Queue :=
  { s with
    jobs := fun J => (s.jobs J).map Job.fixedByParents
    stream := ∅
    depsEarlyIndex := []
    xqPending := [] }

section

variable {s t : Queue}

theorem parentFrame_jobs_eq (h : t.parentFrame = s.parentFrame) (J : JobId) :
    (t.jobs J).map Job.fixedByParents = (s.jobs J).map Job.fixedByParents :=
  congrFun (congrArg Queue.jobs h) J

theorem parentFrame_jobs_none (h : t.parentFrame = s.parentFrame) (J : JobId) :
    t.jobs J = none ↔ s.jobs J = none := by
  have := congrArg Option.isSome (parentFrame_jobs_eq h J)
  simp only [Option.isSome_map] at this
  rw [← Option.not_isSome_iff_eq_none, ← Option.not_isSome_iff_eq_none, this]

theorem parentFrame_idKey (h : t.parentFrame = s.parentFrame) : t.idKey = s.idKey := by
  have := congrArg Queue.idKey h; exact this

theorem parentFrame_job {α : Type} (f : Job → α) (hf : ∀ j, f j.fixedByParents = f j)
    (h : t.parentFrame = s.parentFrame) (J : JobId) : f (t.job J) = f (s.job J) := by
  have := parentFrame_jobs_eq h J
  unfold Queue.job
  cases ht : t.jobs J <;> cases hs : s.jobs J <;> simp [ht, hs] at this ⊢
  rename_i a b
  rw [← hf a, ← hf b, this]

end

/-! ## Commands -/

theorem parentFrame_hmod (s : Queue) (J : JobId) (f : Job → Job)
    (hf : ∀ j, (f j).fixedByParents = j.fixedByParents) :
    (s.hmod J f).parentFrame = s.parentFrame := by
  have : (fun K => ((s.hmod J f).jobs K).map Job.fixedByParents) =
      fun K => (s.jobs K).map Job.fixedByParents := by
    funext K
    simp only [hmod_jobs, Function.update_apply]
    split
    · rename_i h; subst h
      cases s.jobs K <;> simp [hf]
    · rfl
  unfold Queue.parentFrame
  rw [this]; rfl

theorem parentFrame_setState {s : Queue} {J : JobId} (h : s.jobs J ≠ none) (st : JobState) :
    (s.setState J st).parentFrame = s.parentFrame := by
  unfold Queue.setState
  rw [hset_eq_hmod h]
  exact parentFrame_hmod s J _ fun _ => rfl

theorem fixedByParents_markDone (j : Job) (m : DepMember) :
    (j.markDone m).fixedByParents = j.fixedByParents := by
  unfold Job.markDone
  split <;> rfl

theorem fixedByParents_countEarly (j : Job) (m : DepMember) :
    (j.countEarly m).fixedByParents = j.fixedByParents := fixedByParents_markDone _ m

theorem fixedByParents_foldl_countEarly (ms : List DepMember) (j : Job) :
    (ms.foldl Job.countEarly j).fixedByParents = j.fixedByParents := by
  induction ms generalizing j with
  | nil => rfl
  | cons m ms ih => exact (ih _).trans (fixedByParents_countEarly j m)

/-! ## Counting -/

@[simp] theorem parentFrame_releaseParentIfReady (s : Queue) (P : JobId) :
    (releaseParentIfReady s P).1.parentFrame = s.parentFrame := by
  unfold releaseParentIfReady
  simp only
  split
  · rename_i h
    exact parentFrame_setState (jobs_ne_none_of_stateOf h.2) _
  · rfl

@[simp] theorem parentFrame_countEarlyDeps (s : Queue) (P : JobId) :
    (countEarlyDeps s P).1.parentFrame = s.parentFrame := by
  unfold countEarlyDeps
  simp only
  split
  · rfl
  · exact parentFrame_hmod s P _ (fixedByParents_foldl_countEarly _)

@[simp] theorem parentFrame_parkEarly (s : Queue) (P : JobId) (m : DepMember) :
    (parkEarly s P m).parentFrame = s.parentFrame := by
  unfold parkEarly
  split
  · rfl
  · exact parentFrame_hmod s P _ fun _ => rfl

@[simp] theorem parentFrame_completeParentDependency (s : Queue) (P : JobId) (m : DepMember) :
    (completeParentDependency s P m).1.parentFrame = s.parentFrame := by
  unfold completeParentDependency
  split
  · rfl
  split
  · exact parentFrame_parkEarly s P m
  · have hmark : ((countEarlyDeps s P).1.hmod P (·.markDone m)).parentFrame = s.parentFrame := by
      rw [parentFrame_hmod _ _ _ (fixedByParents_markDone · m), parentFrame_countEarlyDeps]
    simp only
    split
    · rw [parentFrame_releaseParentIfReady]; exact hmark
    · exact hmark

/-! ## Notifications -/

@[simp] theorem parentFrame_notifyParent (q : Option QueueName) (p : Option JobId)
    (r : Queue × List ParentNotify) (J : JobId) :
    (notifyParent q p r J).1.parentFrame = r.1.parentFrame := by
  unfold notifyParent enqueueCrossQueueParentNotify
  simp only
  split
  · split <;> rfl
  · rfl

@[simp] theorem parentFrame_enqueueTreeParentNotifies (s : Queue) (J : JobId)
    (q : Option QueueName) (p : Option JobId) (ids : List JobId) :
    (enqueueTreeParentNotifies s J q p ids).1.parentFrame = s.parentFrame := by
  have (l : List JobId) (r : Queue × List ParentNotify) :
      (l.foldl (notifyParent q p) r).1.parentFrame = r.1.parentFrame := by
    induction l generalizing r with
    | nil => rfl
    | cons K l ih => rw [List.foldl_cons, ih, parentFrame_notifyParent]
  exact this (J :: ids) (s, [])

@[simp] theorem parentFrame_resolveDagParent (J : JobId) (r : Queue × List ParentNotify)
    (p : DepMember) : (resolveDagParent J r p).1.parentFrame = r.1.parentFrame := by
  unfold resolveDagParent
  split
  · exact parentFrame_completeParentDependency _ _ _
  · exact parentFrame_notifyParent _ _ _ _

@[simp] theorem parentFrame_foldl_resolveDagParent (J : JobId) (ps : List DepMember)
    (r : Queue × List ParentNotify) :
    (ps.foldl (resolveDagParent J) r).1.parentFrame = r.1.parentFrame := by
  induction ps generalizing r with
  | nil => rfl
  | cons p ps ih => rw [List.foldl_cons, ih, parentFrame_resolveDagParent]

@[simp] theorem parentFrame_resolveRemovedChildParents (s : Queue) (J : JobId)
    (edges : ChildParents) :
    (resolveRemovedChildParents s J edges).1.parentFrame = s.parentFrame := by
  unfold resolveRemovedChildParents
  rw [parentFrame_foldl_resolveDagParent]
  split
  · rfl
  split
  · exact parentFrame_completeParentDependency _ _ _
  · exact parentFrame_enqueueTreeParentNotifies _ _ _ _ _

@[simp] theorem parentFrame_completeParents (s : Queue) (J : JobId) (q : Option QueueName)
    (p : Option JobId) (ns : List ParentNotify) :
    (completeParents s J q p ns).1.parentFrame = s.parentFrame := by
  unfold completeParents
  rw [parentFrame_foldl_resolveDagParent]
  simp only
  split
  · rfl
  split
  · exact parentFrame_completeParentDependency _ _ _
  · rfl

end GlideMq
