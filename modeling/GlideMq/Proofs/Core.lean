import GlideMq.Proofs.Frame

/-!
# The core of a queue

The keys and fields that the invariants are about: the states of the jobs and what holds them, the
groups' slots and frontiers, and the edges between parents and children. Clocks, counters of
attempts, buckets, metrics and pending lists are blank in the core.
-/

namespace GlideMq

open Queue

def Job.core (j : Job) : Job where
  state := j.state
  lifo := j.lifo
  groupKey := j.groupKey
  orderingKey := j.orderingKey
  orderingSeq := j.orderingSeq
  cost := j.cost
  expireAt := j.expireAt
  revoked := j.revoked
  retainedSlot := j.retainedSlot
  parentQueue := j.parentQueue
  parentId := j.parentId
  replacedIds := j.replacedIds
  depsCompleted := j.depsCompleted
  depsEarly := j.depsEarly
  depdone := j.depdone
  depearly := j.depearly

def GroupHash.core (g : GroupHash) : GroupHash where
  maxConcurrency := g.maxConcurrency
  active := g.active
  nextSeq := g.nextSeq
  skip := g.skip
  tbCapacity := g.tbCapacity

def Queue.core (s : Queue) : Queue where
  name := s.name
  ordering := s.ordering
  jobs := fun J => (s.jobs J).map Job.core
  stream := { s.stream with groups := fun _ => {} }
  scheduled := s.scheduled
  completed := s.completed
  failed := s.failed
  suspended := s.suspended
  ratelimited := s.ratelimited
  groupq := s.groupq
  returning := s.returning
  priorityList := s.priorityList
  lifoList := s.lifoList
  groups := fun gk => (s.groups gk).core
  deps := s.deps
  parents := s.parents
  xqPending := s.xqPending
  dedup := s.dedup
  listClaims := s.listClaims

@[simp] theorem Job.core_core (j : Job) : j.core.core = j.core := rfl
@[simp] theorem GroupHash.core_core (g : GroupHash) : g.core.core = g.core := rfl

@[simp] theorem core_core (s : Queue) : s.core.core = s.core := by
  simp [Queue.core, Option.map_map, Function.comp_def]

theorem getD_jobs (s : Queue) (J : JobId) : (s.jobs J).getD {} = s.job J := rfl

theorem stateOf_eq (s : Queue) (J : JobId) : s.stateOf J = (s.job J).state := by
  unfold Queue.job Queue.stateOf
  cases s.jobs J <;> rfl

theorem core_job (s : Queue) (J : JobId) : s.core.job J = (s.job J).core := by
  cases h : s.jobs J <;> simp [Queue.job, Queue.core, h]
  rfl

@[simp] theorem core_stateOf (s : Queue) (J : JobId) : s.core.stateOf J = s.stateOf J := by
  cases h : s.jobs J <;> simp [Queue.stateOf, Queue.core, h]
  rfl

section

variable {s t : Queue}

theorem job_of_core {α : Type} (f : Job → α) (hf : ∀ j, f j.core = f j) (h : t.core = s.core)
    (J : JobId) : f (t.job J) = f (s.job J) := by
  rw [← hf, ← core_job, h, core_job, hf]

theorem stateOf_of_core (h : t.core = s.core) (J : JobId) : t.stateOf J = s.stateOf J := by
  rw [← core_stateOf, h, core_stateOf]

theorem jobs_none_of_core (h : t.core = s.core) (J : JobId) : t.jobs J = none ↔ s.jobs J = none := by
  have := congrArg Option.isSome (congrFun (congrArg Queue.jobs h) J)
  simp only [Queue.core, Option.isSome_map] at this
  rw [← Option.not_isSome_iff_eq_none, ← Option.not_isSome_iff_eq_none, this]

theorem entries_of_core (h : t.core = s.core) : t.stream.entries = s.stream.entries := by
  have : t.core.stream.entries = s.core.stream.entries := by rw [h]
  exact this

theorem lastId_of_core (h : t.core = s.core) : t.stream.lastId = s.stream.lastId := by
  have : t.core.stream.lastId = s.core.stream.lastId := by rw [h]
  exact this

theorem group_of_core {α : Type} (f : GroupHash → α) (hf : ∀ g, f g.core = f g)
    (h : t.core = s.core) (gk : GroupKey) : f (t.groups gk) = f (s.groups gk) := by
  have : (t.groups gk).core = (s.groups gk).core := congrFun (congrArg Queue.groups h) gk
  rw [← hf, this, hf]

theorem key_of_core {α : Type} (f : Queue → α) (hf : ∀ q, f q.core = f q) (h : t.core = s.core) :
    f t = f s := by
  rw [← hf, h, hf]

end

/-! ## Writes that the core does not see -/

theorem core_hgroup (s : Queue) (gk : GroupKey) (f : GroupHash → GroupHash)
    (hf : ∀ g, (f g).core = g.core) : (s.hgroup gk f).core = s.core := by
  have : (fun k => ((s.hgroup gk f).groups k).core) = fun k => (s.groups k).core := by
    funext k
    simp only [hgroup_groups, Function.update_apply]
    split
    · rename_i h; subst h; rw [hf]
    · rfl
  unfold Queue.core
  rw [this]; rfl

theorem core_tbRefill (g : GroupHash) (t : Int) : (tbRefill g t).1.core = g.core := by
  unfold tbRefill
  simp only
  repeat' split
  all_goals rfl

@[simp] theorem core_refill (s : Queue) (gk : GroupKey) (t : Int) : (refill s gk t).1.core = s.core :=
  core_hgroup s gk _ fun g => core_tbRefill g t

@[simp] theorem core_recordFailed (s : Queue) (t d : Int) : (recordFailed s t d).core = s.core := rfl
@[simp] theorem core_recordCompleted (s : Queue) (t d : Int) :
    (recordCompleted s t d).core = s.core := rfl

@[simp] theorem core_markOrderingDone (s : Queue) (J : JobId) (k : Option GroupKey)
    (n : Option Nat) : (markOrderingDone s J k n).core = s.core := by
  unfold markOrderingDone
  simp only
  repeat' split
  all_goals rfl

@[simp] theorem core_advanceRepeatAfterComplete (s : Queue) (J : JobId) (t : Int) :
    (advanceRepeatAfterComplete s J t).core = s.core := by
  unfold advanceRepeatAfterComplete
  repeat' split
  all_goals rfl

@[simp] theorem core_noteActivationFailure (s : Queue) (J : JobId) (r : String) :
    (noteActivationFailure s J r).core = s.core := by
  unfold noteActivationFailure
  split <;> rfl

theorem core_chargeGroup (s : Queue) (gk : GroupKey) (cost now : Int) :
    (chargeGroup s gk cost now).core = s.core := by
  refine core_hgroup s gk _ fun g => ?_
  simp only
  repeat' split
  all_goals rfl

/-! ## Writes that depend on the core only -/

theorem core_hset_eq (s : Queue) (J : JobId) (f : Job → Job) :
    (s.hset J f).core =
      { s.core with jobs := Function.update s.core.jobs J (some (f (s.job J)).core) } := by
  have : (fun K => ((s.hset J f).jobs K).map Job.core) =
      Function.update (fun K => (s.jobs K).map Job.core) J (some (f (s.job J)).core) := by
    funext K
    simp only [hset_jobs, Function.update_apply]
    split <;> rfl
  unfold Queue.core
  rw [this]; rfl

theorem core_hset {s t : Queue} (h : t.core = s.core) (J : JobId) {f : Job → Job}
    (hf : ∀ j, (f j).core = (f j.core).core) : (t.hset J f).core = (s.hset J f).core := by
  rw [core_hset_eq, core_hset_eq, hf (t.job J), hf (s.job J), ← core_job, ← core_job, h]

theorem core_hgroup_eq (s : Queue) (gk : GroupKey) (f : GroupHash → GroupHash) :
    (s.hgroup gk f).core =
      { s.core with groups := Function.update s.core.groups gk (f (s.groups gk)).core } := by
  have : (fun k => ((s.hgroup gk f).groups k).core) =
      Function.update (fun k => (s.groups k).core) gk (f (s.groups gk)).core := by
    funext k
    simp only [hgroup_groups, Function.update_apply]
    split <;> rfl
  unfold Queue.core
  rw [this]; rfl

theorem core_hgroup_congr {s t : Queue} (h : t.core = s.core) (gk : GroupKey)
    {f : GroupHash → GroupHash} (hf : ∀ g, (f g).core = (f g.core).core) :
    (t.hgroup gk f).core = (s.hgroup gk f).core := by
  have hgk : (t.groups gk).core = (s.groups gk).core := congrFun (congrArg Queue.groups h) gk
  rw [core_hgroup_eq, core_hgroup_eq, hf (t.groups gk), hf (s.groups gk), hgk, h]

theorem core_hmod_eq (s : Queue) (J : JobId) {f : Job → Job} (hf : ∀ j, (f j).core = (f j.core).core) :
    (s.hmod J f).core =
      { s.core with
        jobs := Function.update s.core.jobs J ((s.core.jobs J).map fun j => (f j).core) } := by
  have : (fun K => ((s.hmod J f).jobs K).map Job.core) =
      Function.update (fun K => (s.jobs K).map Job.core) J
        (((s.jobs J).map Job.core).map fun j => (f j).core) := by
    funext K
    simp only [hmod_jobs, Function.update_apply]
    split
    · cases s.jobs J <;> simp [← hf]
    · rfl
  unfold Queue.core
  rw [this]; rfl

theorem core_zremReturning {s t : Queue} (h : t.core = s.core) (gk : GroupKey) (J : JobId) :
    (t.zremReturning gk J).core = (s.zremReturning gk J).core := by
  have hself (q : Queue) : (q.zremReturning gk J).core = q.core.zremReturning gk J := rfl
  rw [hself, hself, h]

theorem core_setFailed {s t : Queue} (h : t.core = s.core) (J : JobId) (r : String) (x : Int) :
    (t.setFailed J r x).core = (s.setFailed J r x).core := core_hset h J fun _ => rfl

theorem core_clearRetainedSlot {s t : Queue} (h : t.core = s.core) (J : JobId) :
    (clearRetainedSlot t J).core = (clearRetainedSlot s J).core := by
  unfold clearRetainedSlot
  rw [core_hmod_eq t J fun _ => rfl, core_hmod_eq s J fun _ => rfl, h]

theorem core_closeOrderingHole {s t : Queue} (h : t.core = s.core) (J : JobId) :
    (closeOrderingHole t J).core = (closeOrderingHole s J).core := by
  have hkey : (t.job J).groupKey = (s.job J).groupKey := job_of_core _ (fun _ => rfl) h J
  have hseq : (t.job J).orderingSeq = (s.job J).orderingSeq := job_of_core _ (fun _ => rfl) h J
  have hretained : (t.job J).retainedSlot = (s.job J).retainedSlot :=
    job_of_core _ (fun _ => rfl) h J
  unfold closeOrderingHole
  simp only [getD_jobs, hkey, hseq, hretained]
  cases (s.job J).groupKey with
  | none => exact h
  | some gk =>
    by_cases hz : (s.job J).orderingSeq = 0
    · simpa [hz] using h
    · have hskip := core_hgroup_congr h gk
        (f := fun g => { g with skip := g.skip.insert (s.job J).orderingSeq }) fun _ => rfl
      have hreturning := core_zremReturning hskip gk J
      have hslot := core_hgroup_congr (core_clearRetainedSlot hreturning J) gk
        (f := GroupHash.decrActive) fun _ => rfl
      by_cases hr : (s.job J).retainedSlot <;> simp [hz, hr, hslot, hreturning]

end GlideMq
