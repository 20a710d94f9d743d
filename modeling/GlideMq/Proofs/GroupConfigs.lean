import GlideMq.Proofs.EnqueuePaths
import GlideMq.Proofs.Idle
import GlideMq.Proofs.JobIds

/-!
# How adding a job configures its group

A call that adds jobs starts none and charges no group. It writes the settings that its jobs carry
to their groups.
-/

namespace GlideMq

open Queue Redis

inductive Config where
  | add (c : GroupConfig)
  | flow (c : GroupConfig)
  deriving DecidableEq

def Config.apply (x : Int) : Config → GroupHash → GroupHash
  | .add c, g => upsertTokenBucket (upsertRate g c) c x
  | .flow c, g => flowGroup g c true x

/-- The writes of adds, with configurations that meet the condition. -/
inductive Configured (x : Int) (ok : Config → Prop) : GroupHash → GroupHash → Prop
  | quiet {g g' : GroupHash} (h : Refilled x g g') : Configured x ok g g'
  | config {g g' : GroupHash} {f : Config} (hf : ok f) (h : g'.quota = (f.apply x g).quota) :
      Configured x ok g g'
  | trans {g g' g'' : GroupHash} (h : Configured x ok g g') (h' : Configured x ok g' g'') :
      Configured x ok g g''

theorem Configured.mono {x : Int} {ok ok' : Config → Prop} (hok : ∀ f, ok f → ok' f) {g g' : GroupHash}
    (h : Configured x ok g g') : Configured x ok' g g' := by
  induction h with
  | quiet h => exact .quiet h
  | config hf h => exact .config (hok _ hf) h
  | trans _ _ ih ih' => exact ih.trans ih'

theorem Configured.refilled {x : Int} {ok : Config → Prop} (hok : ∀ f, ¬ ok f) {g g' : GroupHash}
    (h : Configured x ok g g') : Refilled x g g' := by
  induction h with
  | quiet h => exact h
  | config hf h => exact absurd hf (hok _)
  | trans _ _ ih ih' => exact ih.trans ih'

/-- And one of the configurations was written. -/
def Reconfigured (x : Int) (ok : Config → Prop) (g g' : GroupHash) : Prop :=
  ∃ g₁ g₂ f, Configured x ok g g₁ ∧ ok f ∧ g₂.quota = (f.apply x g₁).quota ∧ Configured x ok g₂ g'

structure Adds (x : Int) (ok : GroupKey → Config → Prop) (s t : Queue) : Prop where
  jobs : ∀ J, JobCalm (s.job J) (t.job J)
  groups : ∀ gk, Configured x (ok gk) (s.groups gk) (t.groups gk)
  /-- A job only gets into a group that is configured for it. -/
  keys : ∀ J gk, (t.job J).groupKey = some gk →
    (s.job J).groupKey = some gk ∨ Reconfigured x (ok gk) (s.groups gk) (t.groups gk)

section

variable {x : Int} {ok : GroupKey → Config → Prop} {s t u : Queue} {J : JobId}

theorem Idle.adds (h : Idle x s t) : Adds x ok s t :=
  ⟨fun J => (h.jobs J).toJobCalm, fun gk => .quiet (h.quotas gk), fun J gk hgk => .inl ((h.jobs J).group gk hgk)⟩

theorem Adds.trans (h : Adds x ok s t) (h' : Adds x ok t u) : Adds x ok s u where
  jobs J := (h.jobs J).trans (h'.jobs J)
  groups gk := (h.groups gk).trans (h'.groups gk)
  keys J gk hgk := by
    rcases h'.keys J gk hgk with hold | ⟨g₁, g₂, f, hbefore, hf, heq, hafter⟩
    · rcases h.keys J gk hold with hold | ⟨g₁, g₂, f, hbefore, hf, heq, hafter⟩
      · exact .inl hold
      · exact .inr ⟨g₁, g₂, f, hbefore, hf, heq, hafter.trans (h'.groups gk)⟩
    · exact .inr ⟨g₁, g₂, f, (h.groups gk).trans hbefore, hf, heq, hafter⟩

theorem Adds.idle (h : Adds x ok s t) (ht : Idle x t u) : Adds x ok s u := h.trans ht.adds

theorem Adds.other (h : Adds x ok s t) (hj : u.jobs = t.jobs) (hg : u.groups = t.groups) :
    Adds x ok s u := h.idle ((Idle.refl t).other hj hg)

theorem adds_create {j : Job} (hjobs : t.jobs = Function.update s.jobs J (some j))
    (hj : JobCalm (s.job J) j)
    (hgroups : ∀ gk,
      t.groups gk = s.groups gk ∧ (j.groupKey = some gk → (s.job J).groupKey = some gk) ∨
        ∃ f, ok gk f ∧ (t.groups gk).quota = (f.apply x (s.groups gk)).quota) : Adds x ok s t where
  jobs K := by
    rw [Queue.job, Queue.job, hjobs]
    by_cases hK : K = J
    · subst hK
      rw [Function.update_self]
      exact hj
    · rw [Function.update_of_ne hK]
      exact (JobKept.refl _).toJobCalm
  groups gk := by
    rcases hgroups gk with ⟨hsame, hkey⟩ | ⟨f, hf, heq⟩
    · rw [hsame]
      exact .quiet (.refl _)
    · exact .config hf heq
  keys K gk hgk := by
    rcases hgroups gk with ⟨hsame, hkey⟩ | ⟨f, hf, heq⟩
    · left
      unfold Queue.job at hgk hkey ⊢
      rw [hjobs] at hgk
      by_cases hK : K = J
      · subst hK
        rw [Function.update_self] at hgk
        exact hkey hgk
      · rwa [Function.update_of_ne hK] at hgk
    · exact .inr ⟨_, _, f, .quiet (.refl _), hf, heq, .quiet (.refl _)⟩

/-! ## New hashes -/

theorem newState_ne_active (delay : Int) (priority : Nat) :
    newState delay priority ≠ .active := by
  unfold newState
  repeat' split
  all_goals simp

theorem quota_addedGroup (g : GroupHash) (c : GroupConfig) (seq : Nat) (x : Int) :
    (addedGroup g c seq x).quota = ((Config.add c).apply x g).quota := by
  unfold addedGroup Config.apply upsertTokenBucket upsertRate GroupHash.quota
  grind

theorem createJob_adds {a : AddArgs} (hx : a.serverNow = x) (hok : ∀ gk ∈ a.orderingKey, ok gk (.add a.group))
    (s : Queue) (J : JobId) (replaced : List JobId) : Adds x ok s (createJob s J a replaced) := by
  refine adds_create (createJob_jobs s J a replaced) ⟨?_, ?_⟩ fun gk => ?_
  · intro hst
    exact absurd (Option.some.inj hst) (newState_ne_active _ _)
  · intro c hc
    unfold AddArgs.fields at hc
    simp only at hc
    split at hc
    · cases hc
      right
      assumption
    · exact .inl hc
  · by_cases hk : a.orderingKey = some gk
    · refine .inr ⟨.add a.group, hok gk hk, ?_⟩
      rw [createJob_groups hk, quota_addedGroup, hx]
    · left
      unfold createJob
      cases hkey : a.orderingKey with
      | none => simp [registerInDeps_groups, issueSeq, AddArgs.fields, hkey, Queue.job]
      | some k =>
        have hne : gk ≠ k := by
          rintro rfl
          exact hk hkey
        simp [registerInDeps_groups, issueSeq, upsertGroupConfig, hne, AddArgs.fields, hkey, Ne.symm hne]

theorem quota_flowGroup (g : GroupHash) (c : GroupConfig) (parent : Bool) (x : Int) :
    (flowGroup g c parent x).quota = ((Config.flow c).apply x g).quota := by
  unfold Config.apply flowGroup GroupHash.quota
  grind

theorem jobCalm_flowFields (o : JobOpts) (timestamp delay : Int) (priority seq : Nat) {st : JobState}
    (hst : st ≠ .active) (old : Job) : JobCalm old (flowFields o timestamp delay priority seq st old) where
  active h := absurd (Option.some.inj h) hst
  cost c hc := by
    unfold flowFields at hc
    simp only at hc
    split at hc
    · cases hc
      right
      assumption
    · exact .inl hc

theorem createFlowParent_adds {p : FlowParent} (hx : p.serverNow = x)
    (hok : ∀ gk ∈ p.opts.orderingKey, ok gk (.flow p.opts.groupConfig)) (s : Queue) (J : JobId) :
    Adds x ok s (createFlowParent s J p) := by
  refine adds_create (createFlowParent_jobs s J p) (jobCalm_flowFields _ _ _ _ _ (by simp) _)
    fun gk => ?_
  unfold createFlowParent upsertFlowGroup
  cases hkey : p.opts.orderingKey with
  | none => exact .inl (by simp [issueSeq, flowFields, hkey, Queue.job])
  | some k =>
    by_cases hk : gk = k
    · subst hk
      refine .inr ⟨_, hok gk hkey, ?_⟩
      rw [← quota_flowGroup _ _ true, ← hx]
      simp [issueSeq]
    · exact .inl (by simp [issueSeq, hk, flowFields, hkey, Ne.symm hk])

theorem createFlowChild_adds {c : FlowChild}
    (hok : ∀ gk ∈ c.opts.orderingKey, ok gk (.flow c.opts.groupConfig)) (s : Queue) (J : JobId)
    (q : QueueName) (P : JobId) (timestamp : Int) :
    Adds x ok s (createFlowChild s J c q P timestamp x) := by
  have hjobs : (createFlowChild s J c q P timestamp x).jobs = Function.update s.jobs J
      (some { flowFields c.opts timestamp c.delay c.priority (issueSeq s c.opts.orderingKey).2
          (newState c.delay c.priority) (s.job J) with
        parentId := some P
        parentQueue := some q
        lifo := c.opts.lifo || (s.job J).lifo }) := by
    unfold createFlowChild upsertFlowGroup
    cases c.opts.orderingKey <;> simp [issueSeq, Queue.job]
  have hfields := jobCalm_flowFields c.opts timestamp c.delay c.priority
    (issueSeq s c.opts.orderingKey).2 (newState_ne_active c.delay c.priority) (s.job J)
  refine adds_create hjobs ⟨fun h => absurd (Option.some.inj h)
    (newState_ne_active c.delay c.priority), hfields.cost⟩ fun gk => ?_
  by_cases hk : c.opts.orderingKey = some gk
  · refine .inr ⟨_, hok gk hk, ?_⟩
    rw [createFlowChild_groups hk, quota_flowGroup]
  · left
    unfold createFlowChild upsertFlowGroup
    cases hkey : c.opts.orderingKey with
    | none => simp [issueSeq, enqueueNew_groups, flowFields, hkey]
    | some k =>
      have hne : gk ≠ k := by
        rintro rfl
        exact hk hkey
      simp [issueSeq, enqueueNew_groups, hne, flowFields, hkey, Ne.symm hne]

/-! ## Single jobs -/

theorem allocateId_idle (s : Queue) (customId : Option JobId) : Idle x s (allocateId s customId).1 :=
  have hkept := allocateId_exceptId s customId
  (Idle.refl s).other (jobs_of_exceptId hkept) (groups_of_exceptId hkept)

theorem enqueueNew_idle (s : Queue) (J : JobId) (timestamp delay : Int) (priority : Nat) (lifo : Bool) :
    Idle x s (enqueueNew s J timestamp delay priority lifo) :=
  (Idle.refl s).other (enqueueNew_jobs _ _ _ _ _ _) (enqueueNew_groups _ _ _ _ _ _)

theorem addJob_adds {a : AddArgs} (hx : a.serverNow = x) (hok : ∀ gk ∈ a.orderingKey, ok gk (.add a.group))
    (s : Queue) : Adds x ok s (addJob s a).1 := by
  have halloc := allocateId_idle (x := x) s a.customJobId
  unfold addJob
  split
  · exact (Idle.refl s).adds
  split
  · exact (Idle.refl s).adds
  split
  · rename_i t J hr
    rw [hr] at halloc
    exact (halloc.adds.trans (createJob_adds hx hok t J [])).idle (enqueueNew_idle _ _ _ _ _ _)
  · exact halloc.adds

theorem removeReplaced_idle (s : Queue) (J : JobId) (timestamp serverNow : Int) :
    Idle serverNow s (removeReplaced s J timestamp serverNow).1 := by
  unfold removeReplaced
  simp only
  have hmark : Calm serverNow s (markOrderingDone (s.zremScheduled J) J none none) :=
    ((Calm.refl s).quiet (u := s.zremScheduled J) rfl).markOrderingDone
  refine Idle.other (Idle.unlinkJob (Calm.idle ?_)) rfl rfl
  split
  · exact hmark.closeOrderingHoleAndPromote
  · exact hmark

theorem createReplacement_adds {a : AddArgs} (hx : a.serverNow = x)
    (hok : ∀ gk ∈ a.orderingKey, ok gk (.add a.group)) (s : Queue) (J old : JobId) (edges : ChildParents) :
    Adds x ok s (createReplacement s J old edges a) := by
  unfold createReplacement
  simp only
  generalize (if inheritsEdge a s.name edges = true then inheritedIds edges old J else []) = ids
  have hcreate := createJob_adds hx hok s J ids
  have hparents (edges : List DepMember) (t : Queue) :
      Calm x t (edges.foldl (fun s p => s.saddParents J p) t) :=
    (Calm.refl t).foldl fun u _ _ => (Calm.refl u).quiet rfl
  split
  · exact hcreate.idle (Calm.idle ((hparents _ _).resolveRemovedChildParents _))
  · exact hcreate.idle (Calm.idle ((Calm.refl _).resolveRemovedChildParents _))

theorem dedupAdd_adds {a : DedupArgs} (hx : a.serverNow = x)
    (hok : ∀ gk ∈ a.orderingKey, ok gk (.add a.group)) (s : Queue)
    (replaced : Option (JobId × ChildParents)) : Adds x ok s (dedupAdd s a replaced).1 := by
  have halloc := allocateId_idle (x := x) s a.customJobId
  unfold dedupAdd
  split
  · rename_i t J hr
    rw [hr] at halloc
    refine Adds.other (Adds.idle (halloc.adds.trans ?_) (enqueueNew_idle _ _ _ _ _ _)) rfl rfl
    cases replaced with
    | none => exact createJob_adds hx hok t J []
    | some r => exact createReplacement_adds hx hok t J r.1 r.2
  · rename_i t hr
    rw [hr] at halloc
    cases replaced with
    | none => exact halloc.adds
    | some r => exact halloc.adds.idle (Calm.idle ((Calm.refl _).resolveRemovedChildParents _))
  · exact halloc.adds

theorem dedup_adds {a : DedupArgs} (hx : a.serverNow = x)
    (hok : ∀ gk ∈ a.orderingKey, ok gk (.add a.group)) (s : Queue) : Adds x ok s (dedup s a).1 := by
  unfold dedup
  split
  · exact (Idle.refl s).adds
  split
  · exact (Idle.refl s).adds
  split
  · exact (Idle.refl s).adds
  · exact dedupAdd_adds hx hok s none
  · rename_i J _
    have hremoved := removeReplaced_idle s J a.timestamp a.serverNow
    rw [hx] at hremoved ⊢
    exact hremoved.adds.trans (dedupAdd_adds hx hok _ _)

end

/-! ## Flows -/

section

variable {x : Int} {ok : QueueName → GroupKey → Config → Prop} {S T U : Sys}

def SysAdds (x : Int) (ok : QueueName → GroupKey → Config → Prop) (S T : Sys) : Prop :=
  ∀ q, Adds x (ok q) (S q) (T q)

theorem SysAdds.refl (S : Sys) : SysAdds x ok S S := fun q => (Idle.refl (S q)).adds

theorem SysAdds.update (h : SysAdds x ok S T) {q : QueueName} {t : Queue} (ht : Adds x (ok q) (T q) t) :
    SysAdds x ok S (Function.update T q t) :=
  Machine.forall_update (P := fun q t => Adds x (ok q) (S q) t) h ((h q).trans ht)

theorem allocateFlowId_idle (s : Queue) (customId : Option JobId) :
    Idle x s (allocateFlowId s customId).1 :=
  have hkept := (allocateFlowId_takes s customId).kept
  (Idle.refl s).other (jobs_of_exceptId hkept) (groups_of_exceptId hkept)

theorem addFlowChildren_adds {a : FlowArgs} (hx : a.parent.serverNow = x) (P : JobId) {cs : List FlowChild}
    (hok : ∀ c ∈ cs, ∀ gk ∈ c.opts.orderingKey, ok c.queue gk (.flow c.opts.groupConfig))
    {ids : List JobId} (h : SysAdds x ok S T) : SysAdds x ok S (addFlowChildren a P cs T ids).1 := by
  induction cs generalizing T ids with
  | nil => exact h
  | cons c cs ih =>
    have halloc := allocateFlowId_idle (x := x) (T c.queue) c.customId
    rw [addFlowChildren]
    rcases hr : allocateFlowId (T c.queue) c.customId with ⟨s, r⟩
    rw [hr] at halloc
    cases r with
    | added J =>
      refine ih (fun c' hc' => hok c' (List.mem_cons_of_mem c hc')) ?_
      have hchild := createFlowChild_adds (x := x) (hok c List.mem_cons_self) s J a.queue P
        a.parent.timestamp
      rw [hx]
      exact (h.update (halloc.adds.trans hchild)).update ((Idle.refl _).adds.other rfl rfl)
    | _ => exact h.update halloc.adds

/-- The settings that a flow writes. -/
structure FlowArgs.Carries (a : FlowArgs) (ok : QueueName → GroupKey → Config → Prop) : Prop where
  parent : ∀ gk ∈ a.parent.opts.orderingKey, ok a.queue gk (.flow a.parent.opts.groupConfig)
  children : ∀ c ∈ a.children, ∀ gk ∈ c.opts.orderingKey, ok c.queue gk (.flow c.opts.groupConfig)

theorem addFlow_adds {a : FlowArgs} (hx : a.parent.serverNow = x) (hok : a.Carries ok) (S : Sys) :
    SysAdds x ok S (addFlow S a).1 := by
  have hrefl : SysAdds x ok S S := .refl S
  have halloc := allocateFlowId_idle (x := x) (S a.queue) a.parent.customId
  unfold addFlow
  split
  · exact hrefl
  split
  · exact hrefl
  split
  · exact hrefl
  rcases hr : allocateFlowId (S a.queue) a.parent.customId with ⟨s, r⟩
  rw [hr] at halloc
  have hS : SysAdds x ok S (Function.update S a.queue s) := hrefl.update halloc.adds
  cases r with
  | added P =>
    simp only
    split
    · exact hS
    · have hparent : SysAdds x ok S
          (onQueue (Function.update S a.queue s) a.queue (createFlowParent · P a.parent)) :=
        hS.update (createFlowParent_adds hx hok.parent _ P)
      have hchildren : SysAdds x ok S (addFlowChildren a P a.children (onQueue (Function.update S a.queue s)
          a.queue (createFlowParent · P a.parent)) []).1 := addFlowChildren_adds hx P hok.children hparent
      split
      · rename_i heq
        rw [heq] at hchildren
        refine hchildren.update (Idle.adds ?_)
        exact (Idle.refl _).foldl fun u _ _ => (Idle.refl u).other rfl rfl
      · exact hchildren
  | _ => exact hS

theorem registerParent_adds (S : Sys) (child parent : DepMember) :
    SysAdds x ok S (registerParent S child parent).1 := by
  have hrefl : SysAdds x ok S S := .refl S
  unfold registerParent
  split
  · exact hrefl
  · have hchild : SysAdds x ok S (onQueue S child.queue (·.saddParents child.job parent)) :=
      hrefl.update ((Idle.refl _).adds.other rfl rfl)
    have hparent := hchild.update (q := parent.queue)
      (t := (onQueue S child.queue (·.saddParents child.job parent) parent.queue).saddDeps
        parent.job child) ((Idle.refl _).adds.other rfl rfl)
    simp only
    split
    · exact hparent.update (Calm.idle (Calm.refl _).completeParentDependency).adds
    · exact hparent

end

end GlideMq
