import GlideMq.Model.Producer
import GlideMq.Proofs.FlowAtomic

/-!
# Two ways to add a job

A child of a flow and a job of `Queue.add` leave the same cost and the same group settings exactly
where the conditions of `PathsAgree` hold.
-/

namespace GlideMq

open Queue

/-! ## Group settings -/

def GroupHash.rateFields (g : GroupHash) : Int × Int × Int × Int :=
  (g.rateMax, g.rateDuration, g.rateWindowStart, g.rateCount)

def GroupHash.bucketFields (g : GroupHash) : Int × Int × Option Int × Option Int × Int :=
  (g.tbCapacity, g.tbRefillRate, g.tbTokens, g.tbLastRefill, g.tbRefillRemainder)

structure SameConfig (g g' : GroupHash) : Prop where
  maxConcurrency : g.maxConcurrency = g'.maxConcurrency
  rate : g.rateFields = g'.rateFields
  bucket : g.bucketFields = g'.bucketFields

instance (g g' : GroupHash) : Decidable (SameConfig g g') :=
  decidable_of_iff (g.maxConcurrency = g'.maxConcurrency ∧ g.rateFields = g'.rateFields ∧
    g.bucketFields = g'.bucketFields)
    ⟨fun ⟨h, h', h''⟩ => ⟨h, h', h''⟩, fun ⟨h, h', h''⟩ => ⟨h, h', h''⟩⟩

/-- The settings of one call of `addJob`. -/
def addedGroup (g : GroupHash) (c : GroupConfig) (orderingSeq : Nat) (serverNow : Int) : GroupHash :=
  let g := { g with maxConcurrency := max c.concurrency 1 }
  let g := if 0 < orderingSeq ∧ g.nextSeq = 0 then { g with nextSeq := 1 } else g
  upsertTokenBucket (upsertRate g c) c serverNow

section

variable (g : GroupHash) (c : GroupConfig) (seq : Nat) (now : Int)

@[simp] theorem addedGroup_maxConcurrency :
    (addedGroup g c seq now).maxConcurrency = max c.concurrency 1 := by
  unfold addedGroup upsertTokenBucket upsertRate
  grind

theorem addedGroup_rateFields :
    (addedGroup g c seq now).rateFields =
      if 0 < c.rateMax then (c.rateMax, c.rateDuration, g.rateWindowStart, g.rateCount)
      else if 0 < g.rateMax then (0, 0, 0, 0) else g.rateFields := by
  unfold addedGroup upsertTokenBucket upsertRate GroupHash.rateFields
  grind

theorem addedGroup_bucketFields :
    (addedGroup g c seq now).bucketFields =
      if 0 < c.tbCapacity then
        if g.tbCapacity = 0 then
          (c.tbCapacity, c.tbRefillRate, some c.tbCapacity, some now, 0)
        else (c.tbCapacity, c.tbRefillRate, g.tbTokens, g.tbLastRefill, g.tbRefillRemainder)
      else if 0 < g.tbCapacity then (0, 0, none, none, 0) else g.bucketFields := by
  unfold addedGroup upsertTokenBucket upsertRate GroupHash.bucketFields
  grind

variable (parent : Bool)

@[simp] theorem flowGroup_maxConcurrency :
    (flowGroup g c parent now).maxConcurrency =
      if parent ∨ g.maxConcurrency = 0 then max c.concurrency 1 else g.maxConcurrency := by
  unfold flowGroup
  grind

theorem flowGroup_rateFields :
    (flowGroup g c parent now).rateFields =
      if 0 < c.rateMax then (c.rateMax, c.rateDuration, g.rateWindowStart, g.rateCount)
      else g.rateFields := by
  unfold flowGroup GroupHash.rateFields
  grind

theorem flowGroup_bucketFields :
    (flowGroup g c parent now).bucketFields =
      if 0 < c.tbCapacity then
        (c.tbCapacity, c.tbRefillRate, some (g.tbTokens.getD c.tbCapacity),
          some (g.tbLastRefill.getD now), g.tbRefillRemainder)
      else g.bucketFields := by
  unfold flowGroup GroupHash.bucketFields
  grind

end

/-! ## When they agree -/

/-- The bucket of a flow's child and that of `Queue.add`, over the same hash. -/
def BucketAgrees (o : JobOpts) (g : GroupHash) (serverNow : Int) : Prop :=
  if 0 < o.tokenBucket.1 then
    o.tokenBucket = o.roundedBucket ∧
      if g.tbCapacity = 0 then
        g.tbTokens.getD o.tokenBucket.1 = o.tokenBucket.1 ∧
          g.tbLastRefill.getD serverNow = serverNow ∧ g.tbRefillRemainder = 0
      else g.tbTokens.isSome ∧ g.tbLastRefill.isSome
  else if 0 < o.roundedBucket.1 then (g.tbCapacity, g.tbRefillRate) = o.roundedBucket
  else g.tbCapacity ≤ 0

instance (o : JobOpts) (g : GroupHash) (serverNow : Int) : Decidable (BucketAgrees o g serverNow) := by
  unfold BucketAgrees
  infer_instance

/-- The group had no concurrency, or this one, no rate limit that the options leave out, and a
bucket that the options set to the same amounts either way. -/
structure ConfigAgrees (o : JobOpts) (g : GroupHash) (serverNow : Int) : Prop where
  maxConcurrency : g.maxConcurrency = 0 ∨ g.maxConcurrency = max o.groupConfig.concurrency 1
  rate : 0 < o.groupConfig.rateMax ∨ g.rateMax ≤ 0
  bucket : BucketAgrees o g serverNow

/-- `old` is the cost that the hash of the id of `Queue.add` has already. -/
def CostAgrees (o : JobOpts) (old : Option Int) : Prop :=
  if 0 < o.roundedCost then o.flowCost = o.roundedCost else old = none

instance (o : JobOpts) (old : Option Int) : Decidable (CostAgrees o old) := by
  unfold CostAgrees
  infer_instance

theorem floor_le_jsRound (x : ℚ) : ⌊x⌋ ≤ jsRound x :=
  Int.floor_le_floor (le_add_of_nonneg_right (by norm_num))

theorem tokenBucket_le (o : JobOpts) : o.tokenBucket.1 ≤ o.roundedBucket.1 := by
  unfold JobOpts.tokenBucket JobOpts.roundedBucket
  cases o.ordering.bind OrderingOpts.tokenBucket with
  | none => exact le_rfl
  | some b => exact floor_le_jsRound _

theorem flowCost_le (o : JobOpts) : o.flowCost ≤ o.roundedCost := floor_le_jsRound _

/-- The settings that `Queue.add` passes on. -/
def JobOpts.roundedConfig (o : JobOpts) : GroupConfig :=
  { o.groupConfig with
    concurrency := max o.groupConfig.concurrency 1
    tbCapacity := o.roundedBucket.1
    tbRefillRate := o.roundedBucket.2 }

theorem bucketAgrees_iff (o : JobOpts) (g : GroupHash) (seq : Nat) (now : Int) :
    (flowGroup g o.groupConfig false now).bucketFields =
        (addedGroup g o.roundedConfig seq now).bucketFields ↔ BucketAgrees o g now := by
  have hle := tokenBucket_le o
  rw [flowGroup_bucketFields, addedGroup_bucketFields]
  have hflow : (o.groupConfig.tbCapacity, o.groupConfig.tbRefillRate) = o.tokenBucket := rfl
  have hround : (o.roundedConfig.tbCapacity, o.roundedConfig.tbRefillRate) = o.roundedBucket := rfl
  unfold BucketAgrees GroupHash.bucketFields
  rw [← hflow, ← hround] at hle ⊢
  by_cases hf : 0 < o.groupConfig.tbCapacity
  · have hr : 0 < o.roundedConfig.tbCapacity := hf.trans_le hle
    simp only [hf, hr, if_true]
    by_cases hg : g.tbCapacity = 0
    · simp only [hg, if_true, Prod.mk.injEq, Option.some.injEq]
      constructor
      · rintro ⟨hc, hrate, ht, hl, hm⟩
        exact ⟨⟨hc, hrate⟩, ht.trans hc.symm, hl, hm⟩
      · rintro ⟨⟨hc, hrate⟩, ht, hl, hm⟩
        exact ⟨hc, hrate, ht.trans hc, hl, hm⟩
    · simp only [hg, if_false, Prod.mk.injEq]
      cases g.tbTokens <;> cases g.tbLastRefill <;> simp
  · simp only [hf, if_false]
    by_cases hr : 0 < o.roundedConfig.tbCapacity
    · simp only [hr, if_true]
      by_cases hg : g.tbCapacity = 0
      · simp only [hg, if_true, Prod.mk.injEq]
        constructor <;> rintro ⟨hc, _⟩ <;> omega
      · simp [hg]
    · simp only [hr, if_false]
      by_cases hg : 0 < g.tbCapacity
      · simp only [hg, if_true, Prod.mk.injEq]
        constructor
        · rintro ⟨hc, _⟩
          omega
        · intro hc
          omega
      · simp only [hg, if_false, true_iff]
        omega

theorem configAgrees_iff (o : JobOpts) (g : GroupHash) (seq : Nat) (now : Int) :
    SameConfig (flowGroup g o.groupConfig false now) (addedGroup g o.roundedConfig seq now) ↔
      ConfigAgrees o g now := by
  have hmax : max o.roundedConfig.concurrency 1 = max o.groupConfig.concurrency 1 := by
    change max (max o.groupConfig.concurrency 1) 1 = _
    omega
  have hconc : (flowGroup g o.groupConfig false now).maxConcurrency =
      (addedGroup g o.roundedConfig seq now).maxConcurrency ↔
      (g.maxConcurrency = 0 ∨ g.maxConcurrency = max o.groupConfig.concurrency 1) := by
    rw [flowGroup_maxConcurrency, addedGroup_maxConcurrency, hmax]
    by_cases hg : g.maxConcurrency = 0 <;> simp [hg]
  have hrate : (flowGroup g o.groupConfig false now).rateFields =
      (addedGroup g o.roundedConfig seq now).rateFields ↔
      (0 < o.groupConfig.rateMax ∨ g.rateMax ≤ 0) := by
    rw [flowGroup_rateFields, addedGroup_rateFields]
    have hr : o.roundedConfig.rateMax = o.groupConfig.rateMax := rfl
    have hd : o.roundedConfig.rateDuration = o.groupConfig.rateDuration := rfl
    rw [hr, hd]
    by_cases hmax : 0 < o.groupConfig.rateMax
    · simp [hmax]
    · by_cases hg : 0 < g.rateMax
      · simp only [hmax, hg, if_false, if_true, false_or, GroupHash.rateFields, Prod.mk.injEq]
        constructor
        · rintro ⟨h, _⟩
          omega
        · intro h
          omega
      · simp only [hmax, hg, if_false, false_or, true_iff]
        omega
  constructor
  · rintro ⟨h, h', h''⟩
    exact ⟨hconc.mp h, hrate.mp h', (bucketAgrees_iff o g seq now).mp h''⟩
  · rintro ⟨h, h', h''⟩
    exact ⟨hconc.mpr h, hrate.mpr h', (bucketAgrees_iff o g seq now).mpr h''⟩

theorem costAgrees_iff (o : JobOpts) (old : Option Int) :
    ((if 0 < o.flowCost then some o.flowCost else none) =
      if 0 < o.roundedCost then some o.roundedCost else old) ↔ CostAgrees o old := by
  have hle := flowCost_le o
  unfold CostAgrees
  by_cases hr : 0 < o.roundedCost
  · simp only [hr, if_true]
    by_cases hf : 0 < o.flowCost
    · simp [hf]
    · simp only [hf, if_false, reduceCtorEq, false_iff]
      omega
  · have hf : ¬ 0 < o.flowCost := by omega
    simp only [hr, hf, if_false]
    exact eq_comm

/-! ## The two calls -/

theorem allocateId_exceptId (s : Queue) (c : Option JobId) :
    (allocateId s c).1.exceptId = s.exceptId := by
  unfold allocateId incrId advanceIdCounter
  cases c with
  | some J =>
    by_cases hJ : s.jobs J = none
    · simp only [hJ, if_true]
      split <;> rfl
    · simp only [hJ, if_false]
  | none => cases Lua.incr s.idKey <;> rfl

theorem groups_of_exceptId {s t : Queue} (h : t.exceptId = s.exceptId) : t.groups = s.groups := by
  have hkept : t.exceptId.groups = s.exceptId.groups := by rw [h]
  exact hkept

theorem jobs_of_exceptId {s t : Queue} (h : t.exceptId = s.exceptId) : t.jobs = s.jobs := by
  have hkept : t.exceptId.jobs = s.exceptId.jobs := by rw [h]
  exact hkept

theorem ordering_of_exceptId {s t : Queue} (h : t.exceptId = s.exceptId) : t.ordering = s.ordering := by
  have hkept : t.exceptId.ordering = s.exceptId.ordering := by rw [h]
  exact hkept

theorem registerInDeps_groups (s : Queue) (a : AddArgs) (J : JobId) :
    (registerInDeps s a J).groups = s.groups := by
  unfold registerInDeps
  split
  · split <;> rfl
  · rfl

theorem createJob_groups {s : Queue} {a : AddArgs} {k : GroupKey} (hk : a.orderingKey = some k)
    (J : JobId) (replaced : List JobId) :
    (createJob s J a replaced).groups k =
      addedGroup (s.groups k) a.group (s.ordering k + 1) a.serverNow := by
  unfold createJob
  simp [hk, registerInDeps_groups, issueSeq, upsertGroupConfig, addedGroup]

theorem enqueueNew_groups (s : Queue) (J : JobId) (t d : Int) (priority : Nat) (lifo : Bool) :
    (enqueueNew s J t d priority lifo).groups = s.groups := by
  unfold enqueueNew
  grind [zaddScheduled_groups, rpushLifo_groups, xaddJob_groups]

theorem queueAdd_added {s u : Queue} {o : AddOptions} {timestamp serverNow : Int} {J : JobId}
    (h : queueAdd s o timestamp serverNow = (u, .added J)) :
    (u.job J).cost =
        (if 0 < o.opts.roundedCost then some o.opts.roundedCost else (s.job J).cost) ∧
      ∀ k ∈ o.opts.orderingKey,
        u.groups k = addedGroup (s.groups k) o.opts.roundedConfig (s.ordering k + 1) serverNow := by
  unfold queueAdd addJob at h
  split at h
  · split at h
    · cases h
    · split at h
      · cases h
      · have hkept := allocateId_exceptId s (o.toArgs s.name timestamp serverNow).customJobId
        split at h
        · rename_i t K hr
          rw [hr] at hkept
          cases h
          constructor
          · rw [Queue.job, enqueueNew_jobs, createJob_jobs, Function.update_self, Option.getD_some]
            unfold Queue.job
            rw [← jobs_of_exceptId hkept]
            rfl
          · intro k hk
            have hkey : (o.toArgs s.name timestamp serverNow).orderingKey = some k := hk
            rw [enqueueNew_groups, createJob_groups hkey, groups_of_exceptId hkept,
              ordering_of_exceptId hkept]
            have hgroup : (o.toArgs s.name timestamp serverNow).group =
                { o.opts.roundedConfig with
                  concurrency :=
                    if o.opts.orderingKey.isSome ∧ o.opts.groupConfig.concurrency < 1 then 1
                    else o.opts.groupConfig.concurrency } := rfl
            have hclamp : (if o.opts.orderingKey.isSome ∧ o.opts.groupConfig.concurrency < 1 then 1
                else o.opts.groupConfig.concurrency) = max o.opts.groupConfig.concurrency 1 := by
              rw [hk]
              simp only [Option.isSome_some, true_and]
              split <;> omega
            rw [hgroup, hclamp]
            rfl
        · rename_i hr
          rw [h] at hr
          exact absurd rfl (hr u J)
  · cases h

theorem createFlowChild_groups {s : Queue} {c : FlowChild} {k : GroupKey}
    (hk : c.opts.orderingKey = some k) (J : JobId) (q : QueueName) (P : JobId) (t now : Int) :
    (createFlowChild s J c q P t now).groups k =
      flowGroup (s.groups k) c.opts.groupConfig false now := by
  unfold createFlowChild upsertFlowGroup
  simp [hk, issueSeq, enqueueNew_groups]

theorem createFlowChild_cost {s : Queue} {J : JobId} (hfree : s.jobs J = none) (c : FlowChild)
    (q : QueueName) (P : JobId) (t now : Int) :
    ((createFlowChild s J c q P t now).job J).cost =
      if 0 < c.opts.flowCost then some c.opts.flowCost else none := by
  unfold createFlowChild upsertFlowGroup
  have hjob : (({} : Job)).cost = none := rfl
  cases c.opts.orderingKey <;> simp [Queue.job, issueSeq, flowFields, hfree]

theorem addFlowChildren_append (a : FlowArgs) (P : JobId) (cs : List FlowChild) :
    ∀ (bs : List FlowChild) (S : Sys) (ids : List JobId),
      addFlowChildren a P (bs ++ cs) S ids =
        match addFlowChildren a P bs S ids with
        | (T, .added _ ids') => addFlowChildren a P cs T ids'
        | r => r
  | [], _, _ => rfl
  | b :: bs, S, ids => by
    rw [List.cons_append, addFlowChildren, addFlowChildren]
    rcases allocateFlowId (S b.queue) b.customId with ⟨s, r⟩
    cases r with
    | added J => exact addFlowChildren_append a P cs bs _ _
    | _ => rfl

theorem addFlowChildren_congr {a b : FlowArgs} (hq : b.queue = a.queue) (hp : b.parent = a.parent)
    (P : JobId) : ∀ (cs : List FlowChild) (S : Sys) (ids : List JobId),
      addFlowChildren b P cs S ids = addFlowChildren a P cs S ids
  | [], _, _ => rfl
  | c :: cs, S, ids => by
    rw [addFlowChildren, addFlowChildren, hq, hp]
    rcases allocateFlowId (S c.queue) c.customId with ⟨s, r⟩
    cases r with
    | added J => exact addFlowChildren_congr hq hp P cs _ _
    | _ => rfl

theorem toFlow_ne_added (r : AddResult) (P : JobId) (ids : List JobId) : r.toFlow ≠ .added P ids := by
  cases r <;> nofun

theorem addFlowChildren_parent {a : FlowArgs} {P Q : JobId} :
    ∀ {cs : List FlowChild} {S T : Sys} {ids ids' : List JobId},
      addFlowChildren a P cs S ids = (T, .added Q ids') → Q = P
  | [], _, _, _, _, h => by cases h; rfl
  | c :: cs, S, _, _, _, h => by
    rw [addFlowChildren] at h
    rcases hr : allocateFlowId (S c.queue) c.customId with ⟨s, r⟩
    rw [hr] at h
    cases r with
    | added J => exact addFlowChildren_parent h
    | _ => cases h

/-- An accepted flow: the parent's id, the child loop, and the extra children. -/
theorem addFlow_added {S T : Sys} {a : FlowArgs} {P : JobId} {ids : List JobId}
    (h : addFlow S a = (T, .added P ids)) :
    ∃ s U, allocateFlowId (S a.queue) a.parent.customId = (s, .added P) ∧
      addFlowChildren a P a.children
        (onQueue (Function.update S a.queue s) a.queue (createFlowParent · P a.parent)) [] =
          (U, .added P ids) ∧
      T = onQueue U a.queue fun s => a.extraDeps.foldl (fun s m => s.saddDeps P m) s := by
  unfold addFlow at h
  split at h
  · cases h
  · split at h
    · cases h
    · split at h
      · split at h <;> cases h
      · split at h
        · rename_i s Q hr
          simp only at h
          split at h
          · cases h
          · split at h
            · rename_i U Q' ids' hloop
              cases h
              obtain rfl := addFlowChildren_parent hloop
              exact ⟨s, U, hr, hloop, rfl⟩
            · rename_i hloop
              rw [h] at hloop
              exact absurd rfl (hloop T P ids)
        · exact absurd (Prod.mk.inj h).2 (toFlow_ne_added _ P ids)

theorem onQueue_groups {S : Sys} {q : QueueName} {f : Queue → Queue}
    (hf : ∀ s, (f s).groups = s.groups) (p : QueueName) :
    (onQueue S q f p).groups = (S p).groups := by
  by_cases hp : p = q
  · subst hp
    simp [onQueue, hf]
  · simp [onQueue, hp]

theorem foldl_saddDeps_groups (P : JobId) (ms : List DepMember) (s : Queue) :
    (ms.foldl (fun s m => s.saddDeps P m) s).groups = s.groups := by
  induction ms generalizing s with
  | nil => rfl
  | cons m ms ih => rw [List.foldl_cons, ih, saddDeps_groups]

theorem addFlow_last_child {S T T' : Sys} {a : FlowArgs} {cs : List FlowChild} {c : FlowChild}
    {P P' J' : JobId} {ids ids' : List JobId}
    (hwithout : addFlow S { a with children := cs } = (T, .added P ids))
    (hwith : addFlow S { a with children := cs ++ [c] } = (T', .added P' (ids' ++ [J']))) :
    ((T' c.queue).job J').cost = (if 0 < c.opts.flowCost then some c.opts.flowCost else none) ∧
      ∀ k ∈ c.opts.orderingKey, (T' c.queue).groups k =
        flowGroup ((T c.queue).groups k) c.opts.groupConfig false a.parent.serverNow := by
  -- The last child of an accepted flow, against the flow without it.
  obtain ⟨s, U, hP, hloop, hT⟩ := addFlow_added hwithout
  obtain ⟨s', U', hP', hloop', hT'⟩ := addFlow_added hwith
  simp only at hP hloop hT hP' hloop' hT'
  cases hP.symm.trans hP'
  rw [addFlowChildren_congr (a := a) (b := { a with children := cs }) rfl rfl] at hloop
  rw [addFlowChildren_congr (a := a) (b := { a with children := cs ++ [c] }) rfl rfl] at hloop'
  rw [addFlowChildren_append, hloop] at hloop'
  simp only [addFlowChildren] at hloop'
  rcases hr : allocateFlowId (U c.queue) c.customId with ⟨t, r⟩
  rw [hr] at hloop'
  cases r with
  | added J =>
    simp only [Prod.mk.injEq, FlowResult.added.injEq, true_and] at hloop'
    obtain ⟨hU', hids⟩ := hloop'
    obtain ⟨-, rfl⟩ : ids = ids' ∧ J = J' := by simpa using hids
    have hfree : (U c.queue).jobs J = none := allocateFlowId_free (by rw [hr])
    have hkept : t.exceptId = (U c.queue).exceptId := by
      have := (allocateFlowId_takes (U c.queue) c.customId).kept
      rwa [hr] at this
    constructor
    · rw [hT', ← hU', Queue.job, onQueue_foldl_saddDeps_jobs, onQueue_saddDeps_jobs,
        Function.update_self]
      exact createFlowChild_cost (by rw [jobs_of_exceptId hkept, hfree]) _ _ _ _ _
    · intro k hk
      rw [hT', hT, onQueue_groups (foldl_saddDeps_groups _ _), onQueue_groups (foldl_saddDeps_groups _ _),
        ← hU', onQueue_groups fun s => saddDeps_groups s _ _, Function.update_self,
        createFlowChild_groups hk, groups_of_exceptId hkept]
  | _ => cases hloop'

/-- The cost of the job and the settings of its group are those of the other path. -/
structure SameEnqueue (t : Queue) (J : JobId) (u : Queue) (J' : JobId) (key : Option GroupKey) :
    Prop where
  cost : (t.job J).cost = (u.job J').cost
  config : ∀ k ∈ key, SameConfig (t.groups k) (u.groups k)

structure PathsAgree (o : JobOpts) (s : Queue) (J : JobId) (serverNow : Int) : Prop where
  cost : CostAgrees o (s.job J).cost
  config : ∀ k ∈ o.orderingKey, ConfigAgrees o (s.groups k) serverNow

def FlowChild.addOptions (c : FlowChild) (parent : Option (QueueName × JobId)) : AddOptions :=
  { opts := c.opts, delay := c.delay, priority := c.priority, jobId := c.customId, parent }

instance (t : Queue) (J : JobId) (u : Queue) (J' : JobId) (key : Option GroupKey) :
    Decidable (SameEnqueue t J u J' key) :=
  decidable_of_iff ((t.job J).cost = (u.job J').cost ∧ ∀ k ∈ key, SameConfig (t.groups k) (u.groups k))
    ⟨fun ⟨h, h'⟩ => ⟨h, h'⟩, fun ⟨h, h'⟩ => ⟨h, h'⟩⟩

/-- A flow whose children all go to one queue, over a parent that is not ordered. -/
def flowAround (children : List FlowChild) : FlowArgs :=
  { queue := "q", parent := { timestamp := 0, serverNow := 0 }, children }

/-- A job of an ordered group with a bucket. -/
def childOfCost (cost : ℚ) : FlowChild :=
  { queue := "q"
    opts := { ordering := some { key := "k", tokenBucket := some (2, 1) }, cost } }

/-- `Queue.add` of the same job, to the server with the flow's parent. -/
def addOfCost (cost : ℚ) : Queue × AddResult :=
  queueAdd ((addFlow emptySys (flowAround [])).1 "q") ((childOfCost cost).addOptions none) 0 0

end GlideMq
