import GlideMq.Proofs.AddRuns

/-!
# Flows as runs of steps

A flow adds its parent and its children to their queues, and registers each child in the parent's
deps. On every queue that is a run of steps: the parent has no place of its own, and each child goes
into its container.
-/

namespace GlideMq

open Queue Redis

/-! ## New hashes -/

theorem flowGroup_fixed (g : GroupHash) (cfg : GroupConfig) (parent : Bool) (serverNow : Int) :
    (flowGroup g cfg parent serverNow).active = g.active ∧
      (flowGroup g cfg parent serverNow).skip = g.skip ∧
      (flowGroup g cfg parent serverNow).nextSeq = if g.nextSeq = 0 then 1 else g.nextSeq := by
  unfold flowGroup
  simp only
  repeat' split
  all_goals exact ⟨rfl, rfl, by simp_all⟩

/-- What the parent of a flow and its group get. -/
def FlowParent.newJob (p : FlowParent) : NewJob where
  key := p.opts.orderingKey
  group g := flowGroup g p.opts.groupConfig true p.serverNow
  fields seq old := flowFields p.opts p.timestamp p.delay p.priority seq .waitingChildren old
  state := .waitingChildren
  lifo := false

theorem flowParent_ok (p : FlowParent) : p.newJob.Ok where
  active g := (flowGroup_fixed g _ _ _).1
  skip g := (flowGroup_fixed g _ _ _).2.1
  nextSeq g := (flowGroup_fixed g _ _ _).2.2
  job _ _ := rfl

/-- What a child of a flow and its group get. -/
def FlowChild.newJob (c : FlowChild) (parentQueue : QueueName) (parentId : JobId)
    (timestamp serverNow : Int) : NewJob where
  key := c.opts.orderingKey
  group g := flowGroup g c.opts.groupConfig false serverNow
  fields seq old :=
    { flowFields c.opts timestamp c.delay c.priority seq (newState c.delay c.priority) old with
      parentId := some parentId
      parentQueue := some parentQueue
      lifo := c.opts.lifo || old.lifo }
  state := newState c.delay c.priority
  lifo := c.opts.lifo

theorem flowChild_ok (c : FlowChild) (parentQueue : QueueName) (parentId : JobId)
    (timestamp serverNow : Int) : (c.newJob parentQueue parentId timestamp serverNow).Ok where
  active g := (flowGroup_fixed g _ _ _).1
  skip g := (flowGroup_fixed g _ _ _).2.1
  nextSeq g := (flowGroup_fixed g _ _ _).2.2
  job _ _ := rfl

theorem createFlowParent_eq (s : Queue) (J : JobId) (p : FlowParent) :
    createFlowParent s J p = s.create J p.newJob := by
  unfold createFlowParent Queue.create upsertFlowGroup FlowParent.newJob
  cases p.opts.orderingKey <;> rfl

theorem createFlowChild_eq (s : Queue) (J : JobId) (c : FlowChild) (q : QueueName) (P : JobId)
    (timestamp serverNow : Int) :
    createFlowChild s J c q P timestamp serverNow =
      enqueueNew (s.create J (c.newJob q P timestamp serverNow)) J timestamp c.delay c.priority
        c.opts.lifo := by
  unfold createFlowChild Queue.create upsertFlowGroup FlowChild.newJob
  cases c.opts.orderingKey <;> rfl

/-! ## Ids -/

theorem life_skipUsedIds (retries : Nat) (s : Queue) (J : JobId) :
    (skipUsedIds retries s J).1.life = s.life := by
  induction retries generalizing s J with
  | zero =>
    unfold skipUsedIds
    split <;> rfl
  | succ n ih =>
    unfold skipUsedIds
    split
    · rfl
    · unfold incrId
      cases Lua.incr s.idKey with
      | none => rfl
      | some k => exact ih _ _

theorem life_allocateFlowId (s : Queue) (customId : Option JobId) :
    (allocateFlowId s customId).1.life = s.life := by
  unfold allocateFlowId advanceIdCounter
  cases customId with
  | some J =>
    simp only
    repeat' split
    all_goals rfl
  | none =>
    simp only
    unfold incrId
    cases Lua.incr s.idKey with
    | none => rfl
    | some k => exact life_skipUsedIds _ _ _

/-! ## Runs -/

section

variable {S₀ S : Sys}

/-- The state of every queue is reached by steps. -/
def SysSteps (call : Option Call) (S₀ S : Sys) : Prop :=
  ∀ q, QSteps (S₀ q) call (none, S₀ q) (none, S q)

theorem SysSteps.update {call : Option Call} (hS : SysSteps call S₀ S) {q : QueueName} {t : Queue}
    (ht : QSteps (S₀ q) call (none, S q) (none, t)) : SysSteps call S₀ (Function.update S q t) :=
  Machine.forall_update (P := fun q t => QSteps (S₀ q) call (none, S₀ q) (none, t)) hS
    ((hS q).trans ht)

theorem SysSteps.update_of_life {call : Option Call} (hS : SysSteps call S₀ S) {q : QueueName}
    {t : Queue} (ht : t.life = (S q).life) : SysSteps call S₀ (Function.update S q t) :=
  hS.update (.of_life ht)

theorem createFlowParent_qsteps {s₀ s : Queue} {P : JobId} (hfree : s.jobs P = none)
    (p : FlowParent) : QSteps s₀ none (none, s) (none, createFlowParent s P p) := by
  rw [createFlowParent_eq]
  have hcreate : QStep s₀ none (none, s) (some P, s.create P p.newJob) :=
    .create (Or.inl rfl) (flowParent_ok p) (Or.inl hfree) rfl
  have hst : (s.create P p.newJob).stateOf P = some .waitingChildren := by
    simp [Queue.stateOf, Queue.create, FlowParent.newJob, flowFields]
  exact .tail (.single hcreate) (.enqueue hst (Or.inr (Or.inr ⟨rfl, rfl⟩)) (Or.inl rfl))

theorem createFlowChild_qsteps {s₀ s : Queue} {J : JobId} (hfree : s.jobs J = none)
    (c : FlowChild) (q : QueueName) (P : JobId) (timestamp serverNow : Int) :
    QSteps s₀ none (none, s) (none, createFlowChild s J c q P timestamp serverNow) := by
  rw [createFlowChild_eq]
  have hcreate : QStep s₀ none (none, s) (some J, s.create J (c.newJob q P timestamp serverNow)) :=
    .create (Or.inl rfl) (flowChild_ok c q P timestamp serverNow) (Or.inl hfree) rfl
  refine .tail (.single hcreate) (enqueueNew_qstep (Or.inl rfl) ?_ ?_)
  · simp [Queue.stateOf, Queue.create, FlowChild.newJob, flowFields]
  · intro hlifo
    simp [Queue.job, Queue.create, FlowChild.newJob, flowFields, hlifo]

theorem afterChild_steps (hS : SysSteps none S₀ S) {c : FlowChild} {s : Queue} {J : JobId}
    (hr : allocateFlowId (S c.queue) c.customId = (s, .added J)) (a : FlowArgs) (P : JobId) :
    SysSteps none S₀ (afterChild a P S c s J) := by
  have hlife := life_allocateFlowId (S c.queue) c.customId
  have hfree : (S c.queue).jobs J = none := allocateFlowId_free (by rw [hr])
  rw [hr] at hlife
  have hchild : QSteps (S₀ c.queue) none (none, S c.queue)
      (none, createFlowChild s J c a.queue P a.parent.timestamp a.parent.serverNow) :=
    .trans (QSteps.of_life hlife)
      (createFlowChild_qsteps ((jobs_none_of_life hlife J).mpr hfree) c _ _ _ _)
  exact (hS.update hchild).update_of_life rfl

theorem addFlowChildren_steps (a : FlowArgs) (P : JobId) (cs : List FlowChild) (S : Sys)
    (ids : List JobId) (hS : SysSteps none S₀ S) : SysSteps none S₀ (addFlowChildren a P cs S ids).1 := by
  induction cs generalizing S ids with
  | nil => exact hS
  | cons c cs ih =>
    have hlife := life_allocateFlowId (S c.queue) c.customId
    rw [addFlowChildren]
    rcases hr : allocateFlowId (S c.queue) c.customId with ⟨s, r⟩
    rw [hr] at hlife
    cases r with
    | added J => exact ih _ _ (afterChild_steps hS hr a P)
    | _ => exact hS.update_of_life hlife

theorem life_foldl_saddDeps (s : Queue) (P : JobId) (ms : List DepMember) :
    (ms.foldl (fun s m => s.saddDeps P m) s).life = s.life := by
  induction ms generalizing s with
  | nil => rfl
  | cons m ms ih => exact ih (s.saddDeps P m)

theorem addFlow_steps (S : Sys) (a : FlowArgs) : SysSteps none S (addFlow S a).1 := by
  have hrefl : SysSteps none S S := fun q => .refl
  have hlife := life_allocateFlowId (S a.queue) a.parent.customId
  unfold addFlow
  split
  · exact hrefl
  split
  · exact hrefl
  split
  · exact hrefl
  rcases hr : allocateFlowId (S a.queue) a.parent.customId with ⟨s, r⟩
  have hfree {P : JobId} (hP : r = .added P) : (S a.queue).jobs P = none :=
    allocateFlowId_free (by rw [hr, hP])
  rw [hr] at hlife
  have hS : SysSteps none S (Function.update S a.queue s) := hrefl.update_of_life hlife
  cases r with
  | added P =>
    simp only
    split
    · exact hS
    · have hparent : SysSteps none S
          (onQueue (Function.update S a.queue s) a.queue (createFlowParent · P a.parent)) := by
        refine hS.update ?_
        rw [Function.update_self]
        exact createFlowParent_qsteps ((jobs_none_of_life hlife P).mpr (hfree rfl)) a.parent
      have hchildren := addFlowChildren_steps a P a.children _ [] hparent
      split
      · rename_i heq
        rw [heq] at hchildren
        exact hchildren.update_of_life (life_foldl_saddDeps _ _ _)
      · exact hchildren
  | _ => exact hS

theorem registerParent_steps (call : Option Call) (S : Sys) (child parent : DepMember) :
    SysSteps call S (registerParent S child parent).1 := by
  have hrefl : SysSteps call S S := fun q => .refl
  unfold registerParent
  split
  · exact hrefl
  · have hchild : SysSteps call S (onQueue S child.queue (·.saddParents child.job parent)) :=
      hrefl.update_of_life rfl
    have hparent := hchild.update_of_life (q := parent.queue)
      (t := (onQueue S child.queue (·.saddParents child.job parent) parent.queue).saddDeps
        parent.job child) rfl
    simp only
    split
    · exact hparent.update (completeParentDependency_qsteps _ _ _)
    · exact hparent

end

end GlideMq
