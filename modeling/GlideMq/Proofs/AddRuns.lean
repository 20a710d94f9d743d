import GlideMq.Proofs.JobIds
import GlideMq.Proofs.PromoteRuns

/-!
# Adding as a run of steps

A new job's hash is created, and the job is put into its container. A debounced job is taken out
first.
-/

namespace GlideMq

open Queue Redis

section

variable {s₀ : Queue} {c : Option Call} {h : Option JobId} {s t u : Queue}

/-! ## Ids -/

theorem life_allocateId (s : Queue) (customId : Option JobId) :
    (allocateId s customId).1.life = s.life := by
  unfold allocateId advanceIdCounter incrId
  cases customId with
  | some J =>
    simp only
    repeat' split
    all_goals rfl
  | none =>
    simp only
    cases Lua.incr s.idKey <;> rfl

theorem allocateId_free {customId : Option JobId} {J : JobId}
    (hr : allocateId s customId = (t, .added J)) :
    s.jobs J = none ∨ customId = none ∧ ∃ u, incrId s = some (u, J) := by
  -- A custom id is free, and an automatic one is the next of the counter.
  unfold allocateId at hr
  cases customId with
  | some K =>
    simp only at hr
    split at hr
    · rename_i hfree
      cases hr
      exact Or.inl hfree
    · cases hr
  | none =>
    cases hinc : incrId s with
    | none => rw [hinc] at hr; cases hr
    | some r =>
      rw [hinc] at hr
      cases hr
      exact Or.inr ⟨rfl, r.1, rfl⟩

/-! ## New hashes -/

/-- What a job of `addJob` and its group get. -/
def AddArgs.newJob (a : AddArgs) (replacedIds : List JobId) : NewJob where
  key := a.orderingKey
  group g :=
    upsertTokenBucket (upsertRate { g with
      maxConcurrency := max a.group.concurrency 1
      nextSeq := if g.nextSeq = 0 then 1 else g.nextSeq } a.group) a.group a.serverNow
  fields seq old := a.fields seq replacedIds old
  state := newState a.delay a.priority
  lifo := a.lifo

theorem upsertRate_fixed (g : GroupHash) (cfg : GroupConfig) :
    (upsertRate g cfg).active = g.active ∧ (upsertRate g cfg).skip = g.skip ∧
      (upsertRate g cfg).nextSeq = g.nextSeq := by
  unfold upsertRate
  repeat' split
  all_goals exact ⟨rfl, rfl, rfl⟩

theorem upsertTokenBucket_fixed (g : GroupHash) (cfg : GroupConfig) (serverNow : Int) :
    (upsertTokenBucket g cfg serverNow).active = g.active ∧
      (upsertTokenBucket g cfg serverNow).skip = g.skip ∧
      (upsertTokenBucket g cfg serverNow).nextSeq = g.nextSeq := by
  unfold upsertTokenBucket
  simp only
  repeat' split
  all_goals exact ⟨rfl, rfl, rfl⟩

theorem newJob_ok (a : AddArgs) (replacedIds : List JobId) : (a.newJob replacedIds).Ok where
  active _ := (upsertTokenBucket_fixed _ _ _).1.trans (upsertRate_fixed _ _).1
  skip _ := (upsertTokenBucket_fixed _ _ _).2.1.trans (upsertRate_fixed _ _).2.1
  nextSeq _ := (upsertTokenBucket_fixed _ _ _).2.2.trans (upsertRate_fixed _ _).2.2
  job _ _ := rfl

theorem life_createJob (s : Queue) (J : JobId) (a : AddArgs) (replacedIds : List JobId) :
    (createJob s J a replacedIds).life = (s.create J (a.newJob replacedIds)).life := by
  have hdeps (q : Queue) : (registerInDeps q a J).life = q.life := by
    unfold registerInDeps
    repeat' split
    all_goals rfl
  have hgroup (q : Queue) (k : GroupKey) (n : Nat) :
      upsertGroupConfig q k (n + 1) a.group a.serverNow = q.hgroup k (a.newJob replacedIds).group := by
    unfold upsertGroupConfig AddArgs.newJob
    congr 1
    funext g
    by_cases hz : g.nextSeq = 0 <;> simp [hz]
  unfold createJob Queue.create issueSeq
  simp only
  rw [hdeps]
  cases hkey : a.orderingKey with
  | none =>
    have hnone : (a.newJob replacedIds).key = none := hkey
    simp only [hnone]
    rfl
  | some k =>
    have hsome : (a.newJob replacedIds).key = some k := hkey
    simp only [hsome, hgroup]
    rfl

/-! ## New jobs -/

/-- The place of a new job. -/
def newPlace (timestamp delay : Int) (priority : Nat) (lifo : Bool) : Place :=
  if 0 < delay then .scheduled (priority * priorityShift + (timestamp + delay))
  else if 0 < priority then .scheduled (priority * priorityShift)
  else if lifo then .lifo
  else .stream none

theorem enqueueNew_eq (s : Queue) (J : JobId) (timestamp delay : Int) (priority : Nat) (lifo : Bool) :
    enqueueNew s J timestamp delay priority lifo = s.put J (newPlace timestamp delay priority lifo) := by
  unfold enqueueNew newPlace
  repeat' split
  all_goals rfl

theorem enqueueNew_qstep {J : JobId} {timestamp delay : Int} {priority : Nat} {lifo : Bool}
    (hadds : Creates s₀ c J) (hst : s.stateOf J = some (newState delay priority)) (hlifo : lifo → (s.job J).lifo) :
    QStep s₀ c (some J, s) (none, enqueueNew s J timestamp delay priority lifo) := by
  rw [enqueueNew_eq]
  refine .enqueue hst ?_ hadds
  unfold newState newPlace
  by_cases hdelay : 0 < delay
  · simp only [if_pos hdelay]
    exact Or.inr (Or.inl ⟨by simp, trivial⟩)
  · simp only [if_neg hdelay]
    by_cases hpriority : 0 < priority
    · simp only [if_pos hpriority]
      exact Or.inr (Or.inl ⟨by simp, trivial⟩)
    · simp only [if_neg hpriority]
      split
      · rename_i hl
        exact Or.inl ⟨by simp, hlifo hl⟩
      · exact Or.inl ⟨by simp, trivial⟩

theorem createJob_new (s : Queue) (J : JobId) (a : AddArgs) (replacedIds : List JobId) :
    (createJob s J a replacedIds).stateOf J = some (newState a.delay a.priority) ∧
      (a.lifo → ((createJob s J a replacedIds).job J).lifo) := by
  constructor
  · simp [Queue.stateOf, createJob_jobs, AddArgs.fields]
  · intro hlifo
    simp [Queue.job, createJob_jobs, AddArgs.fields, hlifo]

theorem createJob_qstep {J : JobId} (hc : Creates s₀ c J) (hfree : s.jobs J = none ∨ IssuesId s₀ c J)
    (a : AddArgs) (replacedIds : List JobId) :
    QStep s₀ c (none, s) (some J, createJob s J a replacedIds) :=
  .create hc (newJob_ok a replacedIds) hfree (life_createJob s J a replacedIds)

theorem addJob_qsteps (s : Queue) (a : AddArgs) :
    QSteps s (some (.addJob a)) (none, s) (none, (addJob s a).1) := by
  unfold addJob
  split
  · exact .refl
  rename_i hpriority
  split
  · exact .refl
  rename_i hcost
  have hlife := life_allocateId s a.customJobId
  split
  · rename_i t J hr
    rw [hr] at hlife
    have hJ : (addJob s a).2 = .added J := by
      unfold addJob
      rw [if_neg hpriority, if_neg hcost, hr]
    have hfree : t.jobs J = none ∨ IssuesId s (some (.addJob a)) J := by
      rcases allocateId_free hr with hnone | ⟨hauto, u, hu⟩
      · exact Or.inl ((jobs_none_of_life hlife J).mpr hnone)
      · exact Or.inr ⟨Or.inl ⟨a, rfl, hauto⟩, u, hu⟩
    obtain ⟨hst, hlifo⟩ := createJob_new t J a []
    have hadds : Creates s (some (.addJob a)) J := Or.inr (Or.inl ⟨a, rfl, hJ⟩)
    refine Relation.ReflTransGen.tail ?_ (enqueueNew_qstep hadds hst hlifo)
    exact Relation.ReflTransGen.tail (QSteps.of_life hlife) (createJob_qstep hadds hfree a [])
  · exact .of_life hlife

/-! ## Debounced jobs -/

theorem removeReplaced_qsteps {J : JobId} {a : DedupArgs}
    (hst : s.stateOf J = some .delayed ∨ s.stateOf J = some .prioritized)
    (timestamp serverNow : Int) :
    QSteps s (some (.dedup a)) (none, s) (none, (removeReplaced s J timestamp serverNow).1) := by
  -- The replaced job is taken out, its group goes on, and it is deleted.
  unfold removeReplaced
  simp only
  have hwhy : WhyTaken s (some (.dedup a)) s
      { job := J, sources := [.scheduled J], state := .delayed, slot := .closeHole } :=
    .replace rfl rfl hst
  have hdone := life_of_core (core_markOrderingDone (s.zremScheduled J) J none none)
  have hjob : (s.zremScheduled J).job J = s.job J := rfl
  generalize markOrderingDone (s.zremScheduled J) J none none = u at *
  have htake : QStep s (some (.dedup a)) (none, s) (some J, closeOrderingHole u J) :=
    .take hwhy (life_closeOrderingHole hdone J)
  have hsteps : QSteps s (some (.dedup a)) (none, s) (some J,
      if (s.job J).groupKey.isSome = true ∧ 0 < (s.job J).orderingSeq then
        closeOrderingHoleAndPromote u J timestamp serverNow else u) := by
    split
    · exact .head htake (closeHole_qsteps u J timestamp serverNow)
    · rename_i hnone
      have hkey : (u.job J).groupKey = (s.job J).groupKey :=
        (job_of_life Job.groupKey (fun _ => rfl) hdone J).trans (congrArg Job.groupKey hjob)
      have hseq : (u.job J).orderingSeq = (s.job J).orderingSeq :=
        (job_of_life Job.orderingSeq (fun _ => rfl) hdone J).trans (congrArg Job.orderingSeq hjob)
      have hsame : closeOrderingHole u J = u := by
        unfold closeOrderingHole
        simp only [getD_jobs, hkey, hseq]
        cases hk : (s.job J).groupKey with
        | none => rfl
        | some gk =>
          refine if_pos ?_
          by_contra hne
          exact hnone ⟨by simp [hk], Nat.pos_of_ne_zero hne⟩
      rw [hsame] at htake
      exact .single htake
  exact QSteps.quiet (hsteps.tail .delete) rfl

theorem life_foldl_saddParents (s : Queue) (J : JobId) (ps : List DepMember) :
    (ps.foldl (fun s p => s.saddParents J p) s).life = s.life := by
  induction ps generalizing s with
  | nil => rfl
  | cons p ps ih => exact ih (s.saddParents J p)

theorem createReplacement_qsteps {J : JobId} (hc : Creates s₀ c J)
    (hfree : s.jobs J = none ∨ IssuesId s₀ c J) (old : JobId) (edges : ChildParents) (a : AddArgs) :
    QSteps s₀ c (none, s) (some J, createReplacement s J old edges a) ∧
      (createReplacement s J old edges a).stateOf J = some (newState a.delay a.priority) ∧
      (a.lifo → ((createReplacement s J old edges a).job J).lifo) := by
  -- The replacement is in hand while the parents of the replaced job are resolved.
  unfold createReplacement
  simp only
  generalize (if inheritsEdge a s.name edges = true then inheritedIds edges old J else []) = ids
  obtain ⟨hst, hlifo⟩ := createJob_new s J a ids
  have hcreate : QSteps s₀ c (none, s) (some J, createJob s J a ids) :=
    .single (createJob_qstep hc hfree a ids)
  have hresolve (t : Queue) (ht : t.life = (createJob s J a ids).life) (e : ChildParents) :
      QSteps s₀ c (none, s) (some J, (resolveRemovedChildParents t old e).1) ∧
        (resolveRemovedChildParents t old e).1.stateOf J = some (newState a.delay a.priority) ∧
        (a.lifo → ((resolveRemovedChildParents t old e).1.job J).lifo) := by
    have hne : some (newState a.delay a.priority) ≠ some .waitingChildren := by
      unfold newState
      repeat' split
      all_goals simp
    refine ⟨(QSteps.quiet hcreate ht).trans (resolveRemovedChildParents_qsteps t old e), ?_, ?_⟩
    · exact (resolveRemovedChildParents_releases t old e).stays ((stateOf_of_life ht J).trans hst) hne
    · intro hl
      have hframe := parentFrame_job Job.lifo (fun _ => rfl)
        (parentFrame_resolveRemovedChildParents t old e) J
      rw [hframe, job_of_life Job.lifo (fun _ => rfl) ht J]
      exact hlifo hl
  split
  · exact hresolve _ (life_foldl_saddParents _ J _) _
  · exact hresolve _ rfl _

theorem incrId_of_idKey (h : t.idKey = s.idKey) {J : JobId} (hincr : ∃ u, incrId t = some (u, J)) :
    ∃ u, incrId s = some (u, J) := by
  obtain ⟨u, hu⟩ := hincr
  unfold incrId at *
  rw [h] at hu
  obtain ⟨n, hn, heq⟩ := Option.map_eq_some_iff.mp hu
  cases heq
  exact ⟨s.setIdKey n.repr, by rw [hn]; rfl⟩

theorem dedupAdd_qsteps {a : DedupArgs} (hid : s.idKey = s₀.idKey)
    {replaced : Option (JobId × ChildParents)} (hres : (dedup s₀ a).2 = (dedupAdd s a replaced).2) :
    QSteps s₀ (some (.dedup a)) (none, s) (none, (dedupAdd s a replaced).1) := by
  have hlife := life_allocateId s a.customJobId
  unfold dedupAdd at hres ⊢
  split
  · rename_i t J hr
    rw [hr] at hlife
    have hfree : t.jobs J = none ∨ IssuesId s₀ (some (.dedup a)) J := by
      rcases allocateId_free hr with hnone | ⟨hauto, hincr⟩
      · exact Or.inl ((jobs_none_of_life hlife J).mpr hnone)
      · exact Or.inr ⟨Or.inr ⟨a, rfl, hauto⟩, incrId_of_idKey hid hincr⟩
    rw [hr] at hres
    have hadds : Creates s₀ (some (.dedup a)) J := Or.inr (Or.inr ⟨a, rfl, hres⟩)
    have hstart : QSteps s₀ (some (.dedup a)) (none, s) (none, t) := .of_life hlife
    have henqueue (u : Queue) (hu : QSteps s₀ (some (.dedup a)) (none, t) (some J, u))
        (hst : u.stateOf J = some (newState a.delay a.priority)) (hlifo : a.lifo → (u.job J).lifo) :
        QSteps s₀ (some (.dedup a)) (none, s)
          (none, (enqueueNew u J a.timestamp a.delay a.priority a.lifo).setDedup a.dedupId J
            a.timestamp) :=
      ((hstart.trans hu).tail (enqueueNew_qstep hadds hst hlifo)).tail (.record rfl hres)
    cases replaced with
    | none =>
      obtain ⟨hst, hlifo⟩ := createJob_new t J a.toAddArgs []
      exact henqueue _ (.single (createJob_qstep hadds hfree a.toAddArgs [])) hst hlifo
    | some r =>
      obtain ⟨hsteps, hst, hlifo⟩ := createReplacement_qsteps hadds hfree r.1 r.2 a.toAddArgs
      exact henqueue _ hsteps hst hlifo
  · rename_i t hr
    rw [hr] at hlife
    have hstart : QSteps s₀ (some (.dedup a)) (none, s) (none, t) := .of_life hlife
    cases replaced with
    | none => exact hstart
    | some r => exact hstart.trans (resolveRemovedChildParents_qsteps t r.1 r.2)
  · exact .of_life hlife

theorem dedup_qsteps (s : Queue) (a : DedupArgs) :
    QSteps s (some (.dedup a)) (none, s) (none, (dedup s a).1) := by
  unfold dedup
  split
  · exact .refl
  rename_i hpriority
  split
  · exact .refl
  rename_i hcost
  split
  · exact .refl
  · rename_i hdecision
    refine dedupAdd_qsteps rfl ?_
    unfold dedup
    rw [if_neg hpriority, if_neg hcost, hdecision]
  · rename_i J hdecision
    have hst : s.stateOf J = some .delayed ∨ s.stateOf J = some .prioritized := by
      unfold dedupDecision at hdecision
      cases hentry : s.dedup a.dedupId with
      | none => rw [hentry] at hdecision; cases hdecision
      | some e =>
        rw [hentry] at hdecision
        simp only at hdecision
        repeat' split at hdecision
        all_goals try cases hdecision
        assumption
    have hid := removeReplaced_idKey s J a.timestamp a.serverNow
    refine (removeReplaced_qsteps hst a.timestamp a.serverNow).trans (dedupAdd_qsteps hid ?_)
    unfold dedup
    rw [if_neg hpriority, if_neg hcost, hdecision]
    rfl

end

end GlideMq
