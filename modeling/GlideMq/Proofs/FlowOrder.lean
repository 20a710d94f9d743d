import GlideMq.Proofs.EnqueuePaths
import GlideMq.Proofs.IssuedSeqs

/-!
# Ordering keys in a flow

The order gate lets the jobs of a key through by sequence, and a parent waits for its children. A
parent whose sequence comes before that of its own child holds the child back.
-/

namespace GlideMq

open Queue Redis

/-- A parent of the key waits for its children. -/
def Waits (s : Queue) (Q : JobId) (k : GroupKey) : Prop :=
  s.stateOf Q = some .waitingChildren ∧ (s.job Q).groupKey = some k

/-- The job is pending and waits in the order of a key behind a parent that waits for it. -/
structure HeldBehind (q : QueueName) (s : Queue) (Q J : JobId) : Prop where
  dep : ⟨q, J⟩ ∈ s.deps Q
  pending : ∃ st, s.stateOf J = some st ∧ ¬ st.terminal
  key : ∃ k, Waits s Q k ∧ (s.job J).groupKey = some k
  behind : (s.job Q).orderingSeq < (s.job J).orderingSeq

section

variable {q : QueueName} {s t : Queue} {J K Q P : JobId} {k : GroupKey}

theorem Waits.of_jobs (h : t.jobs Q = s.jobs Q) : Waits t Q k ↔ Waits s Q k := by
  unfold Waits stateOf Queue.job
  rw [h]

theorem HeldBehind.of_jobs (hJ : t.jobs J = s.jobs J) (hQ : t.jobs Q = s.jobs Q)
    (hdep : ⟨q, J⟩ ∈ t.deps Q ↔ ⟨q, J⟩ ∈ s.deps Q) : HeldBehind q t Q J ↔ HeldBehind q s Q J := by
  have hstate : t.stateOf J = s.stateOf J := by
    unfold stateOf
    rw [hJ]
  have hjob : t.job J = s.job J := by
    unfold Queue.job
    rw [hJ]
  have hjob' : t.job Q = s.job Q := by
    unfold Queue.job
    rw [hQ]
  constructor
  · rintro ⟨hd, hp, ⟨k, hw, hk⟩, hb⟩
    exact ⟨hdep.mp hd, hstate ▸ hp, ⟨k, (Waits.of_jobs hQ).mp hw, hjob ▸ hk⟩, hjob ▸ hjob' ▸ hb⟩
  · rintro ⟨hd, hp, ⟨k, hw, hk⟩, hb⟩
    exact ⟨hdep.mpr hd, hstate ▸ hp, ⟨k, (Waits.of_jobs hQ).mpr hw, hjob ▸ hk⟩, hjob ▸ hjob' ▸ hb⟩

/-- A new job of a key gets the next sequence of it. -/
structure NewInOrder (s t : Queue) (J : JobId) (key : Option GroupKey) : Prop where
  free : s.jobs J = none
  others : ∀ K, K ≠ J → t.jobs K = s.jobs K
  pending : ∃ st, t.stateOf J = some st ∧ ¬ st.terminal
  groupKey : (t.job J).groupKey = key
  next : ∀ k, key = some k → (t.job J).orderingSeq = s.ordering k + 1

theorem NewInOrder.heldBehind_iff {key : Option GroupKey} (h : NewInOrder s t J key)
    (hs : SeqsIssued s) (hdeps : ∀ Q K, K ≠ J → (⟨q, K⟩ ∈ t.deps Q ↔ ⟨q, K⟩ ∈ s.deps Q)) :
    HeldBehind q t Q K ↔
      HeldBehind q s Q K ∨ K = J ∧ ∃ k, Waits s Q k ∧ ⟨q, J⟩ ∈ t.deps Q ∧ key = some k := by
  have hjob {L : JobId} (hL : L ≠ J) : t.job L = s.job L := by
    unfold Queue.job
    rw [h.others L hL]
  have hgone (L : JobId) : ¬ HeldBehind q s L J := by
    rintro ⟨-, ⟨st, hst, -⟩, -, -⟩
    exact jobs_ne_none_of_stateOf hst h.free
  by_cases hK : K = J
  · subst hK
    by_cases hQ : Q = K
    · subst hQ
      constructor
      · intro hheld
        exact absurd hheld.behind (lt_irrefl _)
      · rintro (hheld | ⟨-, k, hwaits, -, -⟩)
        · exact absurd hheld (hgone Q)
        · exact absurd h.free (jobs_ne_none_of_stateOf hwaits.1)
    · constructor
      · rintro ⟨hdep, -, ⟨k, hwaits, hk⟩, -⟩
        exact .inr ⟨rfl, k, (Waits.of_jobs (h.others Q hQ)).mp hwaits, hdep, h.groupKey ▸ hk⟩
      · rintro (hheld | ⟨-, k, hwaits, hdep, hk⟩)
        · exact absurd hheld (hgone Q)
        · refine ⟨hdep, h.pending, ⟨k, (Waits.of_jobs (h.others Q hQ)).mpr hwaits, h.groupKey.trans hk⟩, ?_⟩
          have hle := hs.issued Q k hwaits.2
          have hnext := h.next k hk
          rw [hjob hQ]
          omega
  · have hnot : ¬ (K = J ∧ ∃ k, Waits s Q k ∧ ⟨q, J⟩ ∈ t.deps Q ∧ key = some k) := fun hnew => hK hnew.1
    rw [or_iff_left hnot]
    by_cases hQ : Q = J
    · subst hQ
      constructor
      · rintro ⟨-, -, ⟨k, hwaits, hk⟩, hbehind⟩
        -- an old job has a sequence that was issued before
        rw [hjob hK] at hk hbehind
        have hle := hs.issued K k hk
        have hnext := h.next k (h.groupKey ▸ hwaits.2)
        omega
      · intro hheld
        obtain ⟨k, hwaits, -⟩ := hheld.key
        exact absurd h.free (jobs_ne_none_of_stateOf hwaits.1)
    · exact HeldBehind.of_jobs (h.others K hK) (h.others Q hQ) (hdeps Q K hK)

theorem NewInOrder.waits_iff {key : Option GroupKey} (h : NewInOrder s t J key) :
    Waits t Q k ↔ Waits s Q k ∨ Q = J ∧ t.stateOf J = some .waitingChildren ∧ key = some k := by
  by_cases hQ : Q = J
  · subst hQ
    have hnot : ¬ Waits s Q k := fun hwaits => jobs_ne_none_of_stateOf hwaits.1 h.free
    unfold Waits at hnot ⊢
    rw [h.groupKey]
    simp [hnot]
  · rw [Waits.of_jobs (h.others Q hQ)]
    simp [hQ]

/-! ## New jobs of a flow -/

theorem newInOrder_createFlowParent (hfree : s.jobs P = none) (hkept : t.exceptId = s.exceptId)
    (p : FlowParent) : NewInOrder s (createFlowParent t P p) P p.opts.orderingKey := by
  have hgone : (t.jobs P).getD {} = ({} : Job) := by rw [jobs_of_exceptId hkept, hfree]; rfl
  have hjobs := createFlowParent_jobs t P p
  rw [hgone] at hjobs
  refine ⟨hfree, fun K hK => ?_, ⟨.waitingChildren, ?_, nofun⟩, ?_, fun k hk => ?_⟩
  · rw [hjobs, Function.update_of_ne hK, jobs_of_exceptId hkept]
  · simp [stateOf, hjobs, flowFields]
  · cases hkey : p.opts.orderingKey <;> simp [Queue.job, hjobs, flowFields, hkey]
  · simp [Queue.job, hjobs, flowFields, hk, issueSeq, ordering_of_exceptId hkept]

theorem createFlowChild_jobs (s : Queue) (J : JobId) (c : FlowChild) (q : QueueName) (P : JobId)
    (timestamp now : Int) :
    (createFlowChild s J c q P timestamp now).jobs = Function.update s.jobs J (some
      { flowFields c.opts timestamp c.delay c.priority (issueSeq s c.opts.orderingKey).2
          (newState c.delay c.priority) ((s.jobs J).getD {}) with
        parentId := some P
        parentQueue := some q
        lifo := c.opts.lifo || ((s.jobs J).getD {}).lifo }) := by
  unfold createFlowChild upsertFlowGroup
  cases c.opts.orderingKey <;> simp [issueSeq]

theorem newState_pending (delay : Int) (priority : Nat) :
    ¬ (newState delay priority).terminal ∧ newState delay priority ≠ .waitingChildren := by
  unfold newState
  split
  · exact ⟨nofun, nofun⟩
  · split <;> exact ⟨nofun, nofun⟩

theorem newInOrder_createFlowChild (hfree : s.jobs J = none) (hkept : t.exceptId = s.exceptId)
    (c : FlowChild) (q : QueueName) (P : JobId) (timestamp now : Int) :
    NewInOrder s (createFlowChild t J c q P timestamp now) J c.opts.orderingKey ∧
      (createFlowChild t J c q P timestamp now).stateOf J ≠ some .waitingChildren := by
  have hgone : (t.jobs J).getD {} = ({} : Job) := by rw [jobs_of_exceptId hkept, hfree]; rfl
  have hjobs := createFlowChild_jobs t J c q P timestamp now
  have hpending := newState_pending c.delay c.priority
  rw [hgone] at hjobs
  have hstate : (createFlowChild t J c q P timestamp now).stateOf J =
      some (newState c.delay c.priority) := by
    simp [stateOf, hjobs, flowFields]
  refine ⟨⟨hfree, fun K hK => ?_, ⟨_, hstate, hpending.1⟩, ?_, fun k hk => ?_⟩, ?_⟩
  · rw [hjobs, Function.update_of_ne hK, jobs_of_exceptId hkept]
  · cases hkey : c.opts.orderingKey <;> simp [Queue.job, hjobs, flowFields, hkey]
  · simp [Queue.job, hjobs, flowFields, hk, issueSeq, ordering_of_exceptId hkept]
  · rw [hstate]
    simpa using hpending.2

theorem NewInOrder.of_jobs {u : Queue} {key : Option GroupKey} (h : NewInOrder s t J key)
    (hu : u.jobs = t.jobs) : NewInOrder s u J key := by
  obtain ⟨hfree, hothers, hpending, hgk, hnext⟩ := h
  unfold stateOf Queue.job at *
  rw [← hu] at hothers hpending hgk hnext
  exact ⟨hfree, hothers, hpending, hgk, hnext⟩

end

/-! ## The child loop -/

section

variable {T : Sys} {a : FlowArgs} {c : FlowChild} {t : Queue} {J P Q K : JobId} {q : QueueName}
  {k : GroupKey}

/-- The parent lists the job already, or it is the flow's own parent. -/
def Lists (a : FlowArgs) (P : JobId) (T : Sys) (q : QueueName) (Q K : JobId) : Prop :=
  ⟨q, K⟩ ∈ (T q).deps Q ∨ q = a.queue ∧ Q = P

theorem createFlowChild_deps (s : Queue) (J : JobId) (c : FlowChild) (q : QueueName) (P : JobId)
    (timestamp now : Int) : (createFlowChild s J c q P timestamp now).deps = s.deps := by
  unfold createFlowChild upsertFlowGroup enqueueNew
  cases c.opts.orderingKey <;> simp only [issueSeq] <;> repeat' split
  all_goals rfl

theorem afterChild_deps (hkept : t.exceptId = (T c.queue).exceptId) (m : DepMember) :
    m ∈ (afterChild a P T c t J q).deps Q ↔
      m ∈ (T q).deps Q ∨ (q = a.queue ∧ Q = P) ∧ m = ⟨c.queue, J⟩ := by
  have hdeps : t.deps = (T c.queue).deps := by
    have hkept' : t.exceptId.deps = (T c.queue).exceptId.deps := by rw [hkept]
    exact hkept'
  have hchild : ∀ p, (Function.update T c.queue
      (createFlowChild t J c a.queue P a.parent.timestamp a.parent.serverNow) p).deps = (T p).deps := by
    intro p
    by_cases hp : p = c.queue
    · subst hp
      rw [Function.update_self, createFlowChild_deps, hdeps]
    · rw [Function.update_of_ne hp]
  unfold afterChild onQueue
  by_cases hq : q = a.queue
  · subst hq
    rw [Function.update_self, saddDeps_deps, Function.update_apply]
    by_cases hQ : Q = P
    · subst hQ
      simp only [hchild, if_true, List.mem_insert_iff, and_self, true_and]
      exact or_comm
    · simp [hchild, hQ]
  · simp [hq, hchild]

theorem afterChild_jobs (q : QueueName) :
    (afterChild a P T c t J q).jobs = (Function.update T c.queue
      (createFlowChild t J c a.queue P a.parent.timestamp a.parent.serverNow) q).jobs :=
  funext fun K => onQueue_saddDeps_jobs _ a.queue q P ⟨c.queue, J⟩ K

theorem exceptId_of_allocated {s : Queue} {cid : Option JobId}
    (hr : allocateFlowId s cid = (t, .added J)) : t.exceptId = s.exceptId := by
  have hkept := (allocateFlowId_takes s cid).kept
  rwa [hr] at hkept

theorem afterChild_new (hr : allocateFlowId (T c.queue) c.customId = (t, .added J)) :
    NewInOrder (T c.queue) (afterChild a P T c t J c.queue) J c.opts.orderingKey ∧
      (afterChild a P T c t J c.queue).stateOf J ≠ some .waitingChildren := by
  obtain ⟨hnew, hst⟩ := newInOrder_createFlowChild (allocateFlowId_free (by rw [hr]))
    (exceptId_of_allocated hr) c a.queue P a.parent.timestamp a.parent.serverNow
  have hjobs := afterChild_jobs (T := T) (a := a) (c := c) (t := t) (J := J) (P := P) c.queue
  rw [Function.update_self] at hjobs
  refine ⟨hnew.of_jobs hjobs, ?_⟩
  unfold stateOf at hst ⊢
  rw [hjobs]
  exact hst

theorem afterChild_heldBehind (hT : ∀ q, SeqsIssued (T q))
    (hr : allocateFlowId (T c.queue) c.customId = (t, .added J)) :
    HeldBehind q (afterChild a P T c t J q) Q K ↔
      HeldBehind q (T q) Q K ∨ q = c.queue ∧ K = J ∧
        ∃ k, Waits (T q) Q k ∧ Lists a P T q Q J ∧ c.opts.orderingKey = some k := by
  have hdeps := fun m => afterChild_deps (a := a) (P := P) (J := J) (q := q) (Q := Q)
    (exceptId_of_allocated hr) m
  by_cases hq : q = c.queue
  · subst hq
    have hlists : ⟨c.queue, J⟩ ∈ (afterChild a P T c t J c.queue).deps Q ↔ Lists a P T c.queue Q J := by
      rw [hdeps]
      simp [Lists]
    rw [(afterChild_new hr).1.heldBehind_iff (hT c.queue), hlists]
    · simp
    · intro Q' K' hK'
      rw [afterChild_deps (exceptId_of_allocated hr)]
      simp [hK']
  · have hjobs : (afterChild a P T c t J q).jobs = (T q).jobs := by
      rw [afterChild_jobs, Function.update_of_ne hq]
    rw [HeldBehind.of_jobs (congrFun hjobs K) (congrFun hjobs Q) (by rw [hdeps]; simp [hq])]
    simp [hq]

theorem afterChild_waits (hr : allocateFlowId (T c.queue) c.customId = (t, .added J)) :
    Waits (afterChild a P T c t J q) Q k ↔ Waits (T q) Q k := by
  by_cases hq : q = c.queue
  · subst hq
    obtain ⟨hnew, hst⟩ := afterChild_new (a := a) (P := P) hr
    rw [hnew.waits_iff]
    simp [hst]
  · have hjobs : (afterChild a P T c t J q).jobs = (T q).jobs := by
      rw [afterChild_jobs, Function.update_of_ne hq]
    exact Waits.of_jobs (congrFun hjobs Q)

theorem afterChild_lists (hr : allocateFlowId (T c.queue) c.customId = (t, .added J)) :
    Lists a P (afterChild a P T c t J) q Q K ↔ Lists a P T q Q K := by
  unfold Lists
  rw [afterChild_deps (exceptId_of_allocated hr)]
  constructor
  · rintro ((h | ⟨h, -⟩) | h)
    · exact .inl h
    · exact .inr h
    · exact .inr h
  · rintro (h | h)
    · exact .inl (.inl h)
    · exact .inr h

/-- The ids that jobs take, in turn. -/
def takenIds (used : QueueName → JobId → Bool) (ids : QueueName → Option String) :
    List (QueueName × Option JobId) → List JobId
  | [] => []
  | (q, c) :: rest =>
    match takeFlowId (used q) (ids q) c with
    | none => []
    | some (id, J) =>
      J :: takenIds (Function.update used q fun K => K = J || used q K) (Function.update ids q id) rest

theorem takeFlowId_of_allocated {s : Queue} {cid : Option JobId}
    (hr : allocateFlowId s cid = (t, .added J)) :
    ∃ id, takeFlowId s.uses s.idKey cid = some (id, J) ∧ t = { s with idKey := id } := by
  have htakes := allocateFlowId_takes s cid
  cases hf : takeFlowId s.uses s.idKey cid with
  | none => exact absurd (by rw [hr]) (htakes.miss hf J)
  | some p =>
    obtain ⟨id, K⟩ := p
    have hhit := htakes.hit id K hf
    rw [hr] at hhit
    simp only [Prod.mk.injEq, AddResult.added.injEq] at hhit
    exact ⟨id, by rw [hhit.2], hhit.1⟩

def NoneHeld (T : Sys) : Prop := ∀ q Q K, ¬ HeldBehind q (T q) Q K

theorem afterChild_seqs_issued (hT : ∀ q, SeqsIssued (T q))
    (hr : allocateFlowId (T c.queue) c.customId = (t, .added J)) :
    ∀ q, SeqsIssued (afterChild a P T c t J q) :=
  fun q => (afterChild_steps (fun _ => .refl) hr a P q).seqs_issued (hT q)

/-- No child is held back after the loop if none was before and no waiting parent lists a child of
its own key. -/
theorem addFlowChildren_noneHeld {U : Sys} {ids' : List JobId} :
    ∀ {cs : List FlowChild} {T : Sys} {ids : List JobId}, (∀ q, SeqsIssued (T q)) →
      addFlowChildren a P cs T ids = (U, .added P ids') →
      (NoneHeld U ↔ NoneHeld T ∧
        ∀ p ∈ cs.zip (takenIds (usedIds T) (idKeys T) (cs.map fun c => (c.queue, c.customId))),
          ∀ Q k, Waits (T p.1.queue) Q k → Lists a P T p.1.queue Q p.2 →
            p.1.opts.orderingKey ≠ some k)
  | [], T, ids, _, h => by
    cases h
    simp
  | c :: cs, T, ids, hT, h => by
    rw [addFlowChildren] at h
    rcases hr : allocateFlowId (T c.queue) c.customId with ⟨t, r⟩
    rw [hr] at h
    cases r with
    | added J =>
      obtain ⟨id, htake, ht⟩ := takeFlowId_of_allocated hr
      have hloop := addFlowChildren_noneHeld (T := afterChild a P T c t J)
        (afterChild_seqs_issued hT hr) h
      have hused : takeFlowId (usedIds T c.queue) (idKeys T c.queue) c.customId = some (id, J) := htake
      rw [hloop, List.map_cons, takenIds, hused]
      simp only [List.zip_cons_cons, List.forall_mem_cons]
      rw [ht, usedIds_afterChild, idKeys_afterChild, ← ht]
      constructor
      · rintro ⟨hnone, hrest⟩
        refine ⟨fun q Q K hheld => ?_, fun Q k hwaits hlists hkey => ?_, fun p hp Q k hwaits hlists => ?_⟩
        · exact hnone q Q K ((afterChild_heldBehind hT hr).mpr (.inl hheld))
        · exact hnone c.queue Q J
            ((afterChild_heldBehind hT hr).mpr (.inr ⟨rfl, rfl, k, hwaits, hlists, hkey⟩))
        · exact hrest p hp Q k ((afterChild_waits hr).mpr hwaits) ((afterChild_lists hr).mpr hlists)
      · rintro ⟨hnone, hnew, hrest⟩
        refine ⟨fun q Q K hheld => ?_, fun p hp Q k hwaits hlists => ?_⟩
        · rcases (afterChild_heldBehind hT hr).mp hheld with hold | ⟨rfl, rfl, k, hwaits, hlists, hkey⟩
          · exact hnone q Q K hold
          · exact hnew Q k hwaits hlists hkey
        · exact hrest p hp Q k ((afterChild_waits hr).mp hwaits) ((afterChild_lists hr).mp hlists)
    | _ => cases h

theorem addFlowChildren_listed {U : Sys} {ids' : List JobId} :
    ∀ {cs : List FlowChild} {T : Sys} {ids : List JobId},
      addFlowChildren a P cs T ids = (U, .added P ids') →
      (∀ m ∈ (T a.queue).deps P, m ∈ (U a.queue).deps P) ∧
        ∀ K, (U a.queue).jobs K ≠ none →
          (T a.queue).jobs K ≠ none ∨ ⟨a.queue, K⟩ ∈ (U a.queue).deps P
  | [], T, ids, h => by
    cases h
    exact ⟨fun _ hm => hm, fun _ hK => .inl hK⟩
  | c :: cs, T, ids, h => by
    rw [addFlowChildren] at h
    rcases hr : allocateFlowId (T c.queue) c.customId with ⟨t, r⟩
    rw [hr] at h
    cases r with
    | added J =>
      obtain ⟨hdeps, hlisted⟩ := addFlowChildren_listed (T := afterChild a P T c t J) h
      have hchild (m : DepMember) := afterChild_deps (T := T) (a := a) (c := c) (t := t) (J := J)
        (P := P) (Q := P) (q := a.queue) (exceptId_of_allocated hr) m
      refine ⟨fun m hm => hdeps m ((hchild m).mpr (.inl hm)), fun K hK => ?_⟩
      rcases hlisted K hK with hold | hdep
      · by_cases hnew : a.queue = c.queue ∧ K = J
        · refine .inr (hdeps _ ((hchild _).mpr (.inr ⟨⟨rfl, rfl⟩, ?_⟩)))
          rw [hnew.1, hnew.2]
        · refine .inl ?_
          rw [afterChild_jobs] at hold
          by_cases hq : a.queue = c.queue
          · have hKJ : K ≠ J := fun hKJ => hnew ⟨hq, hKJ⟩
            rw [hq, Function.update_self, createFlowChild_jobs_of_ne hKJ,
              jobs_of_exceptId (exceptId_of_allocated hr)] at hold
            rwa [hq]
          · rwa [Function.update_of_ne hq] at hold
      · exact .inr hdep
    | _ => cases h

theorem takenIds_length {U : Sys} {ids' : List JobId} :
    ∀ {cs : List FlowChild} {T : Sys} {ids : List JobId},
      addFlowChildren a P cs T ids = (U, .added P ids') →
      (takenIds (usedIds T) (idKeys T) (cs.map fun c => (c.queue, c.customId))).length = cs.length
  | [], _, _, _ => rfl
  | c :: cs, T, ids, h => by
    rw [addFlowChildren] at h
    rcases hr : allocateFlowId (T c.queue) c.customId with ⟨t, r⟩
    rw [hr] at h
    cases r with
    | added J =>
      obtain ⟨id, htake, rfl⟩ := takeFlowId_of_allocated hr
      have hloop := takenIds_length (T := afterChild a P T c _ J) h
      have hused : takeFlowId (usedIds T c.queue) (idKeys T c.queue) c.customId = some (id, J) := htake
      rw [usedIds_afterChild, idKeys_afterChild] at hloop
      rw [List.map_cons, takenIds, hused]
      simp only [List.length_cons, hloop]
    | _ => cases h

end

/-! ## The flow -/

/-- The queues and keys of a flow's jobs, the parent first. -/
def FlowArgs.places (a : FlowArgs) : List (QueueName × Option GroupKey) :=
  (a.queue, a.parent.opts.orderingKey) :: a.children.map fun c => (c.queue, c.opts.orderingKey)

/-- No child of the flow is in the parent's queue under the parent's key. Nothing was held back
before, and no new job takes an id that a waiting parent of its key still lists. -/
structure OrderClear (S : Sys) (a : FlowArgs) : Prop where
  children : ∀ c ∈ a.children, c.queue = a.queue → ∀ k, c.opts.orderingKey = some k →
    a.parent.opts.orderingKey ≠ some k
  before : NoneHeld S
  leftover : ∀ p ∈ a.places.zip (takenIds (usedIds S) (idKeys S) a.takes), ∀ Q k,
    Waits (S p.1.1) Q k → ⟨p.1.1, p.2⟩ ∈ (S p.1.1).deps Q → p.1.2 ≠ some k

section

variable {S : Sys} {a : FlowArgs} {id : Option String} {P Q K : JobId} {q : QueueName} {k : GroupKey}

theorem afterParent_at (S : Sys) (a : FlowArgs) (id : Option String) (P : JobId) :
    afterParent S a id P a.queue = createFlowParent { S a.queue with idKey := id } P a.parent := by
  simp [afterParent, onQueue]

theorem afterParent_of_ne (h : q ≠ a.queue) : afterParent S a id P q = S q := by
  simp [afterParent, onQueue, h]

theorem createFlowParent_deps (s : Queue) (J : JobId) (p : FlowParent) :
    (createFlowParent s J p).deps = s.deps := by
  unfold createFlowParent upsertFlowGroup
  cases p.opts.orderingKey <;> rfl

theorem afterParent_deps : (afterParent S a id P q).deps = (S q).deps := by
  by_cases hq : q = a.queue
  · subst hq
    rw [afterParent_at, createFlowParent_deps]
  · rw [afterParent_of_ne hq]

theorem afterParent_new (hfree : (S a.queue).jobs P = none) :
    NewInOrder (S a.queue) (afterParent S a id P a.queue) P a.parent.opts.orderingKey := by
  have hkept : ({ S a.queue with idKey := id } : Queue).exceptId = (S a.queue).exceptId := rfl
  rw [afterParent_at]
  exact newInOrder_createFlowParent hfree hkept a.parent

theorem afterParent_state :
    (afterParent S a id P a.queue).stateOf P = some .waitingChildren := by
  rw [afterParent_at]
  simp [stateOf, createFlowParent_jobs, flowFields]

theorem afterParent_heldBehind (hS : ∀ q, SeqsIssued (S q)) (hfree : (S a.queue).jobs P = none) :
    HeldBehind q (afterParent S a id P q) Q K ↔
      HeldBehind q (S q) Q K ∨ q = a.queue ∧ K = P ∧
        ∃ k, Waits (S q) Q k ∧ ⟨q, P⟩ ∈ (S q).deps Q ∧ a.parent.opts.orderingKey = some k := by
  by_cases hq : q = a.queue
  · subst hq
    rw [(afterParent_new hfree).heldBehind_iff (hS _) (fun _ _ _ => by rw [afterParent_deps]),
      afterParent_deps]
    simp
  · rw [afterParent_of_ne hq]
    simp [hq]

theorem afterParent_waits (hfree : (S a.queue).jobs P = none) :
    Waits (afterParent S a id P q) Q k ↔
      Waits (S q) Q k ∨ q = a.queue ∧ Q = P ∧ a.parent.opts.orderingKey = some k := by
  by_cases hq : q = a.queue
  · subst hq
    rw [(afterParent_new hfree).waits_iff]
    simp [afterParent_state]
  · rw [afterParent_of_ne hq]
    simp [hq]

theorem afterParent_seqs_issued (hS : ∀ q, SeqsIssued (S q)) (hfree : (S a.queue).jobs P = none) :
    ∀ q, SeqsIssued (afterParent S a id P q) := by
  intro q
  by_cases hq : q = a.queue
  · subst hq
    rw [afterParent_at]
    have hid : SeqsIssued { S a.queue with idKey := id } := (hS a.queue).of_jobs rfl rfl
    have hfree' : ({ S a.queue with idKey := id } : Queue).jobs P = none := hfree
    have hsteps := @createFlowParent_qsteps (S a.queue) _ _ hfree' a.parent
    exact hsteps.seqs_issued hid
  · rw [afterParent_of_ne hq]
    exact hS q

theorem foldl_saddDeps_deps (ms : List DepMember) (s : Queue) (Q : JobId) (m : DepMember) :
    m ∈ (ms.foldl (fun s m => s.saddDeps P m) s).deps Q ↔ m ∈ s.deps Q ∨ Q = P ∧ m ∈ ms := by
  induction ms generalizing s with
  | nil => simp
  | cons m' ms ih =>
    rw [List.foldl_cons, ih, saddDeps_deps, Function.update_apply]
    by_cases hQ : Q = P
    · subst hQ
      simp only [if_true, List.mem_insert_iff, true_and, List.mem_cons]
      tauto
    · simp [hQ]

theorem extraDeps_noneHeld {V : Sys} {ids : List JobId} (hS : ∀ q, SeqsIssued (S q))
    (hfree : (S a.queue).jobs P = none)
    (hloop : addFlowChildren a P a.children (afterParent S a id P) [] = (V, .added P ids)) :
    NoneHeld (onQueue V a.queue fun s => a.extraDeps.foldl (fun s m => s.saddDeps P m) s) ↔
      NoneHeld V := by
  -- An extra child is older than the parent, or the parent lists it already.
  obtain ⟨hkeeps, -⟩ := addFlowChildren_keeps a P a.children (afterParent S a id P) []
  rw [hloop] at hkeeps
  obtain ⟨-, hlisted⟩ := addFlowChildren_listed hloop
  have hnew := @afterParent_new _ a id _ hfree
  -- jobs that were there keep their hashes
  have hkept {K : JobId} (hK : (afterParent S a id P a.queue).jobs K ≠ none) :
      (V a.queue).jobs K = (afterParent S a id P a.queue).jobs K := by
    obtain ⟨j, hj⟩ := Option.ne_none_iff_exists'.mp hK
    rw [hj]
    exact hkeeps a.queue K j hj
  have hjob {K : JobId} (hK : (afterParent S a id P a.queue).jobs K ≠ none) :
      (V a.queue).job K = (afterParent S a id P a.queue).job K := by
    unfold Queue.job
    rw [hkept hK]
  have hP : (afterParent S a id P a.queue).jobs P ≠ none :=
    jobs_ne_none_of_stateOf afterParent_state
  have hjobs (q : QueueName) (K : JobId) := onQueue_foldl_saddDeps_jobs V a.queue q P a.extraDeps K
  have hdeps (q : QueueName) (Q : JobId) (m : DepMember) :
      m ∈ (onQueue V a.queue (fun s => a.extraDeps.foldl (fun s m => s.saddDeps P m) s) q).deps Q ↔
        m ∈ (V q).deps Q ∨ q = a.queue ∧ Q = P ∧ m ∈ a.extraDeps := by
    by_cases hq : q = a.queue
    · subst hq
      simp [onQueue, foldl_saddDeps_deps]
    · simp [onQueue, hq]
  constructor
  · intro hnone q Q K hheld
    refine hnone q Q K ?_
    obtain ⟨hdep, hpending, ⟨k, hwaits, hk⟩, hbehind⟩ := hheld
    refine ⟨(hdeps q Q _).mpr (.inl hdep), ?_, ⟨k, (Waits.of_jobs (hjobs q Q)).mpr hwaits, ?_⟩, ?_⟩
    · unfold stateOf at hpending ⊢
      rw [hjobs]
      exact hpending
    · unfold Queue.job at hk ⊢
      rw [hjobs]
      exact hk
    · unfold Queue.job at hbehind ⊢
      rw [hjobs, hjobs]
      exact hbehind
  · intro hnone q Q K hheld
    have hV (hdep : ⟨q, K⟩ ∈ (V q).deps Q) : False := by
      refine hnone q Q K ((HeldBehind.of_jobs (hjobs q K) (hjobs q Q) ?_).mp hheld)
      rw [hdeps]
      exact or_iff_left_of_imp fun _ => hdep
    rcases (hdeps q Q ⟨q, K⟩).mp hheld.dep with hdep | ⟨rfl, rfl, -⟩
    · exact hV hdep
    · obtain ⟨-, ⟨st, hst, -⟩, ⟨k, hwaits, hk⟩, hbehind⟩ := hheld
      have hexists : (V a.queue).jobs K ≠ none := by
        rw [← hjobs]
        exact jobs_ne_none_of_stateOf hst
      rcases hlisted K hexists with hold | hdep
      · have hjobs' (K : JobId) : (onQueue V a.queue
            (fun s => a.extraDeps.foldl (fun s m => s.saddDeps Q m) s) a.queue).job K =
              (V a.queue).job K := by
          unfold Queue.job
          rw [hjobs]
        have hwaits' := hwaits.2
        rw [hjobs', hjob hP, hnew.groupKey] at hwaits'
        rw [hjobs', hjobs', hjob hold, hjob hP, hnew.next k hwaits'] at hbehind
        rw [hjobs', hjob hold] at hk
        by_cases hKQ : K = Q
        · rw [hKQ, hnew.next k hwaits'] at hbehind
          exact absurd hbehind (lt_irrefl _)
        · have hsame : (afterParent S a id Q a.queue).job K = (S a.queue).job K := by
            unfold Queue.job
            rw [hnew.others K hKQ]
          rw [hsame] at hk hbehind
          have hle := (hS a.queue).issued K k hk
          omega
      · exact hV hdep

theorem addFlow_noneHeld_iff (hS : ∀ q, SeqsIssued (S q)) {U : Sys} {ids : List JobId}
    (h : addFlow S a = (U, .added P ids)) : NoneHeld U ↔ OrderClear S a := by
  obtain ⟨s, V, hP, hloop, rfl⟩ := addFlow_added h
  obtain ⟨id, htake, rfl⟩ := takeFlowId_of_allocated hP
  have hfree : (S a.queue).jobs P = none := allocateFlowId_free (by rw [hP])
  change addFlowChildren a P a.children (afterParent S a id P) [] = (V, .added P ids) at hloop
  have htaken : takeFlowId (usedIds S a.queue) (idKeys S a.queue) a.parent.customId = some (id, P) :=
    htake
  have hids : takenIds (usedIds S) (idKeys S) a.takes =
      P :: takenIds (usedIds (afterParent S a id P)) (idKeys (afterParent S a id P))
        (a.children.map fun c => (c.queue, c.customId)) := by
    rw [FlowArgs.takes, takenIds, htaken, usedIds_afterParent, idKeys_afterParent]
  have hlen := takenIds_length hloop
  rw [extraDeps_noneHeld hS hfree hloop,
    addFlowChildren_noneHeld (afterParent_seqs_issued hS hfree) hloop]
  generalize hnew : takenIds (usedIds (afterParent S a id P)) (idKeys (afterParent S a id P))
    (a.children.map fun c => (c.queue, c.customId)) = new at hids hlen
  have hplaces : a.places.zip (P :: new) = ((a.queue, a.parent.opts.orderingKey), P) ::
      (a.children.zip new).map fun p => ((p.1.queue, p.1.opts.orderingKey), p.2) := by
    rw [FlowArgs.places, List.zip_cons_cons, List.zip_map_left]
    rfl
  constructor
  · rintro ⟨hnone, hchildren⟩
    refine ⟨fun c hc hq k hk hparent => ?_, fun q Q K hheld => ?_, fun p hp Q k hwaits hdep hkey => ?_⟩
    · obtain ⟨J, hJ⟩ : ∃ J, (c, J) ∈ a.children.zip new := by
        obtain ⟨i, hi, rfl⟩ := List.getElem_of_mem hc
        exact ⟨new[i], by
          rw [← List.getElem_zip (h := by simp [hlen, hi])]
          exact List.getElem_mem _⟩
      exact hchildren (c, J) hJ P k ((afterParent_waits hfree).mpr (.inr ⟨hq, rfl, hparent⟩))
        (.inr ⟨hq, rfl⟩) hk
    · exact hnone q Q K ((afterParent_heldBehind hS hfree).mpr (.inl hheld))
    · rw [hids, hplaces] at hp
      rcases List.mem_cons.mp hp with rfl | hp
      · exact hnone a.queue Q P
          ((afterParent_heldBehind hS hfree).mpr (.inr ⟨rfl, rfl, k, hwaits, hdep, hkey⟩))
      · obtain ⟨⟨c, J⟩, hmem, rfl⟩ := List.mem_map.mp hp
        refine hchildren (c, J) hmem Q k ((afterParent_waits hfree).mpr (.inl hwaits)) (.inl ?_) hkey
        rw [afterParent_deps]
        exact hdep
  · rintro ⟨hchildren, hbefore, hleft⟩
    rw [hids, hplaces] at hleft
    rw [List.forall_mem_cons] at hleft
    refine ⟨fun q Q K hheld => ?_, fun p hp Q k hwaits hlists hkey => ?_⟩
    · rcases (afterParent_heldBehind hS hfree).mp hheld with hold | ⟨rfl, rfl, k, hwaits, hdep, hkey⟩
      · exact hbefore q Q K hold
      · exact hleft.1 Q k hwaits hdep hkey
    · rcases (afterParent_waits hfree).mp hwaits with hold | ⟨hq, rfl, hparent⟩
      · rcases hlists with hdep | ⟨hq, rfl⟩
        · rw [afterParent_deps] at hdep
          exact hleft.2 _ (List.mem_map_of_mem hp) Q k hold hdep hkey
        · rw [hq] at hold
          exact jobs_ne_none_of_stateOf hold.1 hfree
      · exact hchildren p.1 (List.of_mem_zip hp).1 hq k hkey hparent

end

/-- After an accepted flow no child is held back behind a parent that waits for it, exactly if the
flow and the server before it are clear. -/
theorem addFlow_order_clear_iff (calls : List SysCall) {a : FlowArgs} {U : Sys} {P : JobId}
    {ids : List JobId}
    (h : addFlow (Machine.run sysStep emptySys calls) a = (U, .added P ids)) :
    NoneHeld U ↔ OrderClear (Machine.run sysStep emptySys calls) a :=
  addFlow_noneHeld_iff (seqs_issued_run calls) h

/-- A flow with one child, in the parent's queue. -/
def flowOfKeys (parent child : GroupKey) : FlowArgs :=
  { queue := "q"
    parent := { opts := { ordering := some { key := parent } }, timestamp := 0, serverNow := 0 }
    children := [{ queue := "q", opts := { ordering := some { key := child } } }] }

theorem addFlow_order_clear_for_two_keys :
    NoneHeld (addFlow (Machine.run sysStep emptySys []) (flowOfKeys "k" "l")).1 := by
  have h : addFlow (Machine.run sysStep emptySys []) (flowOfKeys "k" "l") =
      ((addFlow (Machine.run sysStep emptySys []) (flowOfKeys "k" "l")).1, .added "1" ["2"]) :=
    Prod.ext rfl (by decide +kernel)
  refine (addFlow_order_clear_iff [] h).mpr ⟨?_, ?_, ?_⟩
  · intro c hc _ k hk
    obtain rfl := List.mem_singleton.mp hc
    have hl : (some "l" : Option GroupKey) = some k := hk
    rw [← hl]
    decide
  · intro q Q K hheld
    cases hheld.dep
  · intro p hp Q k hwaits
    cases hwaits.1

/-- The child of a parent with its key is parked by the order gate, and the parent waits for it. -/
theorem addFlow_holds_child_back :
    (addFlow emptySys (flowOfKeys "k" "k")).2 = .added "1" ["2"] ∧
      HeldBehind "q" ((addFlow emptySys (flowOfKeys "k" "k")).1 "q") "1" "2" ∧
      let s := Machine.run sysStep emptySys
        [.addFlow (flowOfKeys "k" "k"), .on "q" (.readGroup "g" "w"),
          .on "q" (.moveToActive
            { jobId := "2", timestamp := 1, serverNow := 1, group := "g", entryId := some 1 })] "q"
      s.stateOf "2" = some .groupWaiting ∧ s.stateOf "1" = some .waitingChildren := by
  refine ⟨by decide +kernel, ⟨by decide +kernel, ⟨.waiting, by decide +kernel, nofun⟩,
    ⟨"k", ⟨by decide +kernel, by decide +kernel⟩, by decide +kernel⟩, by decide +kernel⟩, ?_⟩
  decide +kernel

end GlideMq
