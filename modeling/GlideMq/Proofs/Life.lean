import GlideMq.Model.Admin
import GlideMq.Proofs.ClaimSteps

/-!
# The life of a job

A job moves from one place to another and gets a new state there. A move is written in one form for
every function that makes one. Where a job is and what its group holds for it is its life: the
dependencies between jobs are left out. The deduplication entries are kept with it.
-/

namespace GlideMq

open Queue Redis

/-! ## What a life is -/

def Job.life (j : Job) : Job where
  state := j.state
  lifo := j.lifo
  groupKey := j.groupKey
  orderingKey := j.orderingKey
  orderingSeq := j.orderingSeq
  cost := j.cost
  expireAt := j.expireAt
  revoked := j.revoked
  retainedSlot := j.retainedSlot

def Queue.life (s : Queue) : Queue where
  name := s.name
  ordering := s.ordering
  jobs := fun J => (s.jobs J).map Job.life
  stream := { s.stream with groups := fun _ => {} }
  scheduled := s.scheduled
  completed := s.completed
  failed := s.failed
  suspended := s.suspended
  ratelimited := s.ratelimited
  groupq := s.groupq
  priorityList := s.priorityList
  lifoList := s.lifoList
  groups := fun gk => (s.groups gk).core
  dedup := s.dedup
  listClaims := s.listClaims

theorem life_core (s : Queue) : s.core.life = s.life := by
  simp only [Queue.life, Queue.core, Option.map_map]
  rfl

section

variable {s t : Queue}

theorem life_of_core (h : t.core = s.core) : t.life = s.life := by
  rw [← life_core, h, life_core]

theorem life_job (s : Queue) (J : JobId) : s.life.job J = (s.job J).life := by
  cases h : s.jobs J <;> simp [Queue.job, Queue.life, h]
  rfl

theorem job_of_life {α : Type} (f : Job → α) (hf : ∀ j, f j.life = f j) (h : t.life = s.life)
    (J : JobId) : f (t.job J) = f (s.job J) := by
  rw [← hf, ← life_job, h, life_job, hf]

theorem stateOf_of_life (h : t.life = s.life) (J : JobId) : t.stateOf J = s.stateOf J := by
  rw [stateOf_eq, stateOf_eq]
  exact job_of_life Job.state (fun _ => rfl) h J

theorem jobs_none_of_life (h : t.life = s.life) (J : JobId) : t.jobs J = none ↔ s.jobs J = none := by
  have := congrArg Option.isSome (congrFun (congrArg Queue.jobs h) J)
  simp only [Queue.life, Option.isSome_map] at this
  rw [← Option.not_isSome_iff_eq_none, ← Option.not_isSome_iff_eq_none, this]

theorem key_of_life {α : Type} (f : Queue → α) (hf : ∀ q, f q.life = f q) (h : t.life = s.life) :
    f t = f s := by
  rw [← hf, h, hf]

theorem entries_of_life (h : t.life = s.life) : t.stream.entries = s.stream.entries :=
  key_of_life (·.stream.entries) (fun _ => rfl) h

theorem lastId_of_life (h : t.life = s.life) : t.stream.lastId = s.stream.lastId :=
  key_of_life (·.stream.lastId) (fun _ => rfl) h

theorem group_of_life {α : Type} (f : GroupHash → α) (hf : ∀ g, f g.core = f g)
    (h : t.life = s.life) (gk : GroupKey) : f (t.groups gk) = f (s.groups gk) := by
  have : (t.groups gk).core = (s.groups gk).core := congrFun (congrArg Queue.groups h) gk
  rw [← hf, this, hf]

theorem entryOf_of_life {J : JobId} {e : Option Nat} (h : t.life = s.life) :
    EntryOf t J e ↔ EntryOf s J e := by
  unfold EntryOf
  rw [entries_of_life h, lastId_of_life h]

end

/-! ## Writes -/

theorem life_hset (s : Queue) (J : JobId) (f : Job → Job) :
    (s.hset J f).life =
      { s.life with jobs := Function.update s.life.jobs J (some (f (s.job J)).life) } := by
  have : (fun K => ((s.hset J f).jobs K).map Job.life) =
      Function.update (fun K => (s.jobs K).map Job.life) J (some (f (s.job J)).life) := by
    funext K
    simp only [hset_jobs, Function.update_apply]
    split <;> rfl
  unfold Queue.life
  rw [this]; rfl

theorem life_hmod (s : Queue) (J : JobId) {f : Job → Job} (hf : ∀ j, (f j).life = (f j.life).life) :
    (s.hmod J f).life =
      { s.life with
        jobs := Function.update s.life.jobs J ((s.life.jobs J).map fun j => (f j).life) } := by
  have : (fun K => ((s.hmod J f).jobs K).map Job.life) =
      Function.update (fun K => (s.jobs K).map Job.life) J
        (((s.jobs J).map Job.life).map fun j => (f j).life) := by
    funext K
    simp only [hmod_jobs, Function.update_apply]
    split
    · cases s.jobs J <;> simp [← hf]
    · rfl
  unfold Queue.life
  rw [this]; rfl

theorem life_hmod_self (s : Queue) (J : JobId) {f : Job → Job} (hf : ∀ j, (f j).life = j.life) :
    (s.hmod J f).life = s.life := by
  have : (fun K => ((s.hmod J f).jobs K).map Job.life) = fun K => (s.jobs K).map Job.life := by
    funext K
    simp only [hmod_jobs, Function.update_apply]
    split
    · rename_i h; subst h
      cases s.jobs K <;> simp [hf]
    · rfl
  unfold Queue.life
  rw [this]; rfl

theorem life_hset_self {s : Queue} {J : JobId} (h : s.jobs J ≠ none) {f : Job → Job}
    (hf : ∀ j, (f j).life = j.life) : (s.hset J f).life = s.life := by
  rw [hset_eq_hmod h]
  exact life_hmod_self s J hf

theorem life_hgroup (s : Queue) (gk : GroupKey) (f : GroupHash → GroupHash) :
    (s.hgroup gk f).life =
      { s.life with groups := Function.update s.life.groups gk (f (s.groups gk)).core } := by
  have : (fun k => ((s.hgroup gk f).groups k).core) =
      Function.update (fun k => (s.groups k).core) gk (f (s.groups gk)).core := by
    funext k
    simp only [hgroup_groups, Function.update_apply]
    split <;> rfl
  unfold Queue.life
  rw [this]; rfl

theorem job_setState {α : Type} (f : Job → α) (hf : ∀ (j : Job) st, f { j with state := st } = f j)
    (s : Queue) (J K : JobId) (st : JobState) : f ((s.setState J st).job K) = f (s.job K) := by
  unfold Queue.setState Queue.job
  simp only [hset_jobs, Function.update_apply]
  split
  · rename_i h; subst h; simp [hf]
  · rfl

/-! ## Moves -/

/-- What a job is taken out of. -/
inductive Source where
  | scheduled (member : String)
  | suspended
  | priority
  | lifo
  | groupq (gk : GroupKey)
  | claim

def Queue.takeFrom (s : Queue) (J : JobId) : Source → Queue
  | .scheduled m => s.zremScheduled m
  | .suspended => s.zremSuspended J
  | .priority => s.lremPriority J
  | .lifo => s.lremLifo J
  | .groupq gk => s.zremGroupq gk J
  | .claim => s.dropClaim J

/-- Where a job is put. -/
inductive Place where
  | nowhere
  | stream (retryGroup : Option Group)
  | priorityFront
  | priorityBack
  | lifo
  | scheduled (x : Int)
  | suspended (x : Int)
  | completed (x : Int)
  | failed (x : Int)
  | groupq (gk : GroupKey) (x : Int)

def Queue.put (s : Queue) (J : JobId) : Place → Queue
  | .nowhere => s
  | .stream r => { s with stream := s.stream.xadd ⟨J, r⟩ }
  | .priorityFront => s.lpushPriority J
  | .priorityBack => s.rpushPriority J
  | .lifo => s.rpushLifo J
  | .scheduled x => s.zaddScheduled J x
  | .suspended x => s.zaddSuspended J x
  | .completed x => s.zaddCompleted J x
  | .failed x => s.zaddFailed J x
  | .groupq gk x => s.zaddGroupq gk J x

/-- What happens to the slot that the job may hold in its group. -/
inductive Slot where
  | leave
  | retain
  | release (hint : Option GroupKey)
  | closeHole
  | undo
  | take (gk : GroupKey)

def Queue.doSlot (s : Queue) (J : JobId) : Slot → Queue
  | .leave => s
  | .retain => s.hset J ({ · with retainedSlot := true })
  | .release hint => afterRelease s J hint
  | .closeHole => closeOrderingHole s J
  | .undo => undoClaim s J
  | .take gk => takeSlot s gk (s.job J).orderingSeq

structure Move where
  job : JobId
  group : Group := ""
  entry : Option Nat := none
  sources : List Source := []
  place : Place := .nowhere
  state : JobState
  slot : Slot := .leave

/-- The job is out of its old places. -/
def Move.detach (m : Move) (s : Queue) : Queue :=
  m.sources.foldl (·.takeFrom m.job) (ackDel s m.group m.entry)

def Move.apply (m : Move) (s : Queue) : Queue :=
  (((m.detach s).put m.job m.place).setState m.job m.state).doSlot m.job m.slot

/-- The first part of a removal: the job is taken out, and its slot is settled. -/
def Move.withdraw (m : Move) (s : Queue) : Queue := (m.detach s).doSlot m.job m.slot

/-! ## States -/

section

variable (s : Queue) (J K : JobId)

@[simp] theorem stateOf_ackDel (group : Group) (e : Option Nat) :
    (ackDel s group e).stateOf K = s.stateOf K := by
  cases e <;> rfl

@[simp] theorem stateOf_takeFrom (src : Source) : (s.takeFrom J src).stateOf K = s.stateOf K := by
  cases src <;> rfl

@[simp] theorem stateOf_put (p : Place) : (s.put J p).stateOf K = s.stateOf K := by
  cases p <;> rfl

theorem stateOf_setState (st : JobState) :
    (s.setState J st).stateOf K = if K = J then some st else s.stateOf K := stateOf_hset s J K _

@[simp] theorem stateOf_hgroup (gk : GroupKey) (f : GroupHash → GroupHash) :
    (s.hgroup gk f).stateOf K = s.stateOf K := rfl

@[simp] theorem stateOf_releaseSlot (gk : GroupKey) :
    (releaseSlot s J gk).stateOf K = s.stateOf K := by
  unfold releaseSlot clearRetainedSlot
  exact stateOf_hmod s J K _ fun _ => rfl

@[simp] theorem stateOf_afterRelease (hint : Option GroupKey) :
    (afterRelease s J hint).stateOf K = s.stateOf K := by
  unfold afterRelease
  split
  · rfl
  · exact stateOf_releaseSlot s J K _

@[simp] theorem stateOf_doSlot (slot : Slot) : (s.doSlot J slot).stateOf K = s.stateOf K := by
  cases slot with
  | leave => rfl
  | retain =>
    have := stateOf_hset s J K fun j => { j with retainedSlot := true }
    refine this.trans ?_
    split
    · rename_i h
      rw [h, stateOf_eq]
    · rfl
  | release hint => exact stateOf_afterRelease s J K hint
  | closeHole => exact closeOrderingHole_stateOf s J K
  | undo =>
    unfold doSlot undoClaim
    simp only
    split <;> rfl
  | take gk => rfl

@[simp] theorem stateOf_detach (m : Move) : (m.detach s).stateOf K = s.stateOf K := by
  have hfold (l : List Source) (q : Queue) :
      (l.foldl (·.takeFrom m.job) q).stateOf K = q.stateOf K := by
    induction l generalizing q with
    | nil => rfl
    | cons src l ih => exact (ih _).trans (stateOf_takeFrom q m.job K src)
  exact (hfold _ _).trans (stateOf_ackDel s K m.group m.entry)

theorem stateOf_apply (m : Move) :
    (m.apply s).stateOf K = if K = m.job then some m.state else s.stateOf K := by
  unfold Move.apply
  rw [stateOf_doSlot, stateOf_setState, stateOf_put, stateOf_detach]

theorem stateOf_withdraw (m : Move) : (m.withdraw s).stateOf K = s.stateOf K := by
  unfold Move.withdraw
  rw [stateOf_doSlot, stateOf_detach]

end

/-! ## Hashes -/

section

variable (s : Queue) (J K : JobId)

@[simp] theorem ackDel_jobs (group : Group) (e : Option Nat) : (ackDel s group e).jobs = s.jobs := by
  cases e <;> rfl

@[simp] theorem takeFrom_jobs (src : Source) : (s.takeFrom J src).jobs = s.jobs := by
  cases src <;> rfl

@[simp] theorem foldl_takeFrom_jobs (l : List Source) : (l.foldl (·.takeFrom J) s).jobs = s.jobs := by
  induction l generalizing s with
  | nil => rfl
  | cons src l ih => exact (ih _).trans (takeFrom_jobs s J src)

@[simp] theorem put_jobs (p : Place) : (s.put J p).jobs = s.jobs := by
  cases p <;> rfl

@[simp] theorem detach_jobs (m : Move) : (m.detach s).jobs = s.jobs :=
  (foldl_takeFrom_jobs _ m.job m.sources).trans (ackDel_jobs s m.group m.entry)

theorem setState_jobs_none (st : JobState) :
    (s.setState J st).jobs K = none ↔ K ≠ J ∧ s.jobs K = none := by
  unfold setState
  rw [hset_jobs, Function.update_apply]
  split
  · rename_i h
    simp [h]
  · rename_i h
    simp [h]

theorem afterRelease_jobs_none (hint : Option GroupKey) :
    (afterRelease s J hint).jobs K = none ↔ s.jobs K = none := by
  unfold afterRelease
  split
  · rfl
  · exact frame_jobs_none (frame_releaseSlot s J _) K

theorem doSlot_jobs_none (slot : Slot) (h : slot = .retain → s.jobs J ≠ none) :
    (s.doSlot J slot).jobs K = none ↔ s.jobs K = none := by
  cases slot with
  | leave => rfl
  | retain =>
    unfold doSlot
    rw [hset_jobs, Function.update_apply]
    split
    · rename_i hK
      have hj := h rfl
      rw [← hK] at hj
      simp [hj]
    · rfl
  | release hint => exact afterRelease_jobs_none s J K hint
  | closeHole => exact frame_jobs_none (frame_closeOrderingHole s J) K
  | undo =>
    unfold doSlot undoClaim
    simp only
    split <;> rfl
  | take gk => rfl

theorem apply_jobs_none (m : Move) : (m.apply s).jobs K = none ↔ K ≠ m.job ∧ s.jobs K = none := by
  unfold Move.apply
  have hexists : (((m.detach s).put m.job m.place).setState m.job m.state).jobs m.job ≠ none := by
    rw [ne_eq, setState_jobs_none]
    simp
  rw [doSlot_jobs_none _ _ _ _ fun _ => hexists, setState_jobs_none, put_jobs, detach_jobs]

theorem withdraw_jobs_none (m : Move) (h : m.slot = .retain → s.jobs m.job ≠ none) :
    (m.withdraw s).jobs K = none ↔ s.jobs K = none := by
  unfold Move.withdraw
  rw [doSlot_jobs_none _ _ _ _ (by simpa using h), detach_jobs]

end

/-! ## Moves only see lives -/

section

variable {s t : Queue} (h : t.life = s.life)

include h

theorem life_ackDel (group : Group) (e : Option Nat) :
    (ackDel t group e).life = (ackDel s group e).life := by
  have hself (q : Queue) (n : Nat) : ((q.xack group n).xdel n).life = q.life.xdel n := rfl
  cases e with
  | none => exact h
  | some n =>
    unfold ackDel
    rw [hself, hself, h]

theorem life_takeFrom (J : JobId) (src : Source) : (t.takeFrom J src).life = (s.takeFrom J src).life := by
  have hself (q : Queue) : (q.takeFrom J src).life = q.life.takeFrom J src := by cases src <;> rfl
  rw [hself, hself, h]

theorem life_put (J : JobId) (p : Place) : (t.put J p).life = (s.put J p).life := by
  have hself (q : Queue) : (q.put J p).life = q.life.put J p := by cases p <;> rfl
  rw [hself, hself, h]

theorem life_setState (J : JobId) (st : JobState) :
    (t.setState J st).life = (s.setState J st).life := by
  unfold setState
  have hjob : ({ t.job J with state := some st } : Job).life =
      { s.job J with state := some st : Job }.life := job_of_life
    (fun j => ({ j with state := some st } : Job).life) (fun _ => rfl) h J
  rw [life_hset, life_hset, h, hjob]

theorem life_hset_congr (J : JobId) {f : Job → Job} (hf : ∀ j, (f j).life = (f j.life).life) :
    (t.hset J f).life = (s.hset J f).life := by
  have hjob : (f (t.job J)).life = (f (s.job J)).life :=
    job_of_life (fun j => (f j).life) (fun j => (hf j).symm) h J
  rw [life_hset, life_hset, h, hjob]

theorem life_hgroup_congr (gk : GroupKey) {f : GroupHash → GroupHash}
    (hf : ∀ g, (f g).core = (f g.core).core) : (t.hgroup gk f).life = (s.hgroup gk f).life := by
  have hgk : (f (t.groups gk)).core = (f (s.groups gk)).core :=
    group_of_life (fun g => (f g).core) (fun g => (hf g).symm) h gk
  rw [life_hgroup, life_hgroup, h, hgk]

theorem life_clearRetainedSlot (J : JobId) :
    (clearRetainedSlot t J).life = (clearRetainedSlot s J).life := by
  unfold clearRetainedSlot
  rw [life_hmod t J fun _ => rfl, life_hmod s J fun _ => rfl, h]

theorem life_afterRelease (J : JobId) (hint : Option GroupKey) :
    (afterRelease t J hint).life = (afterRelease s J hint).life := by
  have hkey : (t.job J).groupKey = (s.job J).groupKey := job_of_life _ (fun _ => rfl) h J
  unfold afterRelease
  rw [hkey]
  cases hint <|> (s.job J).groupKey with
  | none => exact h
  | some gk =>
    have hreturning (q : Queue) : (q.zremReturning gk J).life = q.life := rfl
    unfold releaseSlot
    refine life_hgroup_congr ?_ gk fun _ => rfl
    rw [hreturning, hreturning, life_clearRetainedSlot h J]

theorem life_closeOrderingHole (J : JobId) :
    (closeOrderingHole t J).life = (closeOrderingHole s J).life := by
  have hkey : (t.job J).groupKey = (s.job J).groupKey := job_of_life _ (fun _ => rfl) h J
  have hseq : (t.job J).orderingSeq = (s.job J).orderingSeq := job_of_life _ (fun _ => rfl) h J
  have hretained : (t.job J).retainedSlot = (s.job J).retainedSlot := job_of_life _ (fun _ => rfl) h J
  unfold closeOrderingHole
  simp only [getD_jobs, hkey, hseq, hretained]
  cases (s.job J).groupKey with
  | none => exact h
  | some gk =>
    by_cases hz : (s.job J).orderingSeq = 0
    · simpa [hz] using h
    · have hreturning (q : Queue) : (q.zremReturning gk J).life = q.life := rfl
      have hskip := life_hgroup_congr h gk
        (f := fun g => { g with skip := g.skip.insert (s.job J).orderingSeq }) fun _ => rfl
      have hskip' : ((t.hgroup gk fun g => { g with skip := g.skip.insert (s.job J).orderingSeq
          }).zremReturning gk J).life = ((s.hgroup gk fun g => { g with
          skip := g.skip.insert (s.job J).orderingSeq }).zremReturning gk J).life := by
        rw [hreturning, hreturning, hskip]
      have hslot := life_hgroup_congr (life_clearRetainedSlot hskip' J) gk
        (f := GroupHash.decrActive) fun _ => rfl
      by_cases hr : (s.job J).retainedSlot <;> simp [hz, hr, hslot, hskip']

theorem life_undoClaim (J : JobId) : (undoClaim t J).life = (undoClaim s J).life := by
  have hkey : (t.job J).groupKey = (s.job J).groupKey := job_of_life _ (fun _ => rfl) h J
  have hcharge (g : GroupHash) (j : Job) : (g.undoCharge j).core = g.core := by
    unfold GroupHash.undoCharge
    simp only
    repeat' split
    all_goals rfl
  have hslot (g : GroupHash) (j : Job) : (g.undoSlot j).core = (g.core.undoSlot j.life).core := by
    unfold GroupHash.undoSlot
    simp only
    rw [apply_ite GroupHash.core, apply_ite GroupHash.core]
    rfl
  have hjob : (t.job J).life = (s.job J).life := job_of_life Job.life (fun _ => rfl) h J
  unfold undoClaim
  simp only [hkey]
  cases (s.job J).groupKey with
  | none => exact h
  | some gk =>
    have hgk : (t.groups gk).core = (s.groups gk).core :=
      group_of_life GroupHash.core (fun _ => rfl) h gk
    simp only [life_hgroup]
    rw [h, hcharge, hcharge, hslot (t.groups gk), hslot (s.groups gk), hgk, hjob]

theorem life_doSlot (J : JobId) (slot : Slot) : (t.doSlot J slot).life = (s.doSlot J slot).life := by
  cases slot with
  | leave => exact h
  | retain => exact life_hset_congr h J fun _ => rfl
  | release hint => exact life_afterRelease h J hint
  | closeHole => exact life_closeOrderingHole h J
  | undo => exact life_undoClaim h J
  | take gk =>
    have hseq : (t.job J).orderingSeq = (s.job J).orderingSeq := job_of_life _ (fun _ => rfl) h J
    unfold doSlot takeSlot
    simp only [hseq]
    exact life_hgroup_congr h gk fun _ => rfl

end

end GlideMq
