import GlideMq.Model.Calls
import GlideMq.Proofs.ParentFrame

/-!
# Job ids

The counter is never behind an existing id that is a plain number below `10 ^ 14`. From there on
`tostring` rounds, and an automatic id may be one that is in use.
-/

namespace GlideMq

open Queue

/-- Calls that add jobs. -/
inductive AddCall where
  | addJob (q : QueueName) (a : AddArgs)
  | dedup (q : QueueName) (a : DedupArgs)
  | addFlow (a : FlowArgs)

def addStep (S : Sys) : AddCall → Sys
  | .addJob q a => onQueue S q fun s => (addJob s a).1
  | .dedup q a => onQueue S q fun s => (dedup s a).1
  | .addFlow a => (addFlow S a).1

/-! ## The counter -/

def Queue.counter (s : Queue) : Nat := counterOf s.idKey

/-- Numbers below this print as they are. -/
def printLimit : Nat := 10 ^ 14

theorem printLimit_lt : printLimit < 2 ^ 53 := by decide

/-- The counter keeps what it has passed. -/
def CounterGrows (s s' : Queue) : Prop := ∀ k < printLimit, k ≤ s.counter → k ≤ s'.counter

theorem CounterGrows.refl (s : Queue) : CounterGrows s s := fun _ _ h => h

theorem CounterGrows.trans {s t u : Queue} (h : CounterGrows s t) (h' : CounterGrows t u) :
    CounterGrows s u := fun k hk hle => h' k hk (h k hk hle)

theorem CounterGrows.of_idKey_eq {s s' : Queue} (h : s'.idKey = s.idKey) : CounterGrows s s' := by
  intro k _ hle
  rwa [Queue.counter, h]

theorem toNumber_repr_of_lt {k : Nat} (hk : k < printLimit) : Lua.toNumber k.repr = k := by
  have := printLimit_lt
  rw [Lua.toNumber, Lua.value_repr, Lua.toDouble_of_lt (by omega)]

/-- A new id `J`: the counter has reached it if it is a plain number. -/
structure Issues (s : Queue) (J : JobId) (s' : Queue) : Prop where
  jobs : s'.jobs = s.jobs
  grows : CounterGrows s s'
  reached : ∀ k < printLimit, J = k.repr → k ≤ s'.counter

theorem advanceIdCounter_issues (s : Queue) (J : JobId) : Issues s J (advanceIdCounter s J) := by
  unfold advanceIdCounter
  split
  · rename_i h
    have hcounter : (s.setIdKey J).counter = Lua.toNumber J := by
      simp [Queue.counter, counterOf, Option.filter, h.1]
    refine ⟨rfl, ?_, ?_⟩
    · intro k _ hle
      have : s.counter ≤ Lua.toNumber J := Nat.le_of_lt h.2.2
      exact hcounter ▸ le_trans hle this
    · rintro k hk rfl
      exact hcounter ▸ (toNumber_repr_of_lt hk).ge
  · rename_i h
    refine ⟨rfl, CounterGrows.refl s, ?_⟩
    rintro k hk rfl
    by_contra hlt
    apply h
    rw [toNumber_repr_of_lt hk]
    exact ⟨Lua.isDigits_repr k, by omega, Nat.lt_of_not_le hlt⟩

theorem counter_of_incr {s : Queue} {n : Int} (h : Lua.incr s.idKey = some n) :
    (∃ v : Nat, n = (v + 1 : Nat) ∧ s.counter = Lua.toDouble v) ∨ n ≤ 0 ∧ s.counter = 0 := by
  unfold Queue.counter counterOf
  cases hid : s.idKey with
  | none =>
    rw [hid] at h
    cases h
    exact .inl ⟨0, rfl, rfl⟩
  | some t =>
    rw [hid] at h
    obtain ⟨v, hv, hn⟩ := Option.bind_eq_some_iff.mp h
    split at hn
    · cases hn
      rcases Lua.readInt64_eq_some hv with ⟨k, rfl, hdigits, hvalue⟩ | ⟨hneg, hdigits⟩
      · exact .inl ⟨k, rfl, by simp [Option.filter, hdigits, Lua.toNumber, hvalue]⟩
      · exact .inr ⟨by omega, by simp [Option.filter, hdigits]⟩
    · cases hn

/-- The id that is printed from a counter value. -/
def printId (n : Int) : JobId := Lua.printInt n

theorem printId_of_lt {n : Nat} (h : n < printLimit) : printId n = n.repr := by
  have := printLimit_lt
  change Lua.toStr (Lua.toDouble n) = n.repr
  rw [Lua.toDouble_of_lt (by omega), Lua.toStr_of_lt h]

theorem repr_natCast (n : Nat) : (n : Int).repr = n.repr := rfl

theorem counter_setIdKey (s : Queue) (n : Nat) : (s.setIdKey n.repr).counter = Lua.toDouble n := by
  simp [Queue.counter, counterOf, Option.filter, Lua.toNumber]

theorem le_toDouble_of_lt {k n : Nat} (hk : k < printLimit) (h : k ≤ n) : k ≤ Lua.toDouble n := by
  have := printLimit_lt
  rcases Nat.lt_or_ge n (2 ^ 53) with hn | hn
  · rwa [Lua.toDouble_of_lt hn]
  · have := Lua.le_toDouble hn
    omega

theorem printId_reached (s : Queue) {n : Int} {k : Nat} (hk : k < printLimit) (hprint : printId n = k.repr) :
    k ≤ (s.setIdKey n.repr).counter := by
  -- A number that is printed without rounding is reached, a negative one is no plain number.
  cases n with
  | ofNat n =>
    change k ≤ (s.setIdKey n.repr).counter
    rw [counter_setIdKey]
    rcases Nat.lt_or_ge n printLimit with hn | hn
    · have hprint' : printId n = k.repr := hprint
      rw [printId_of_lt hn] at hprint'
      rw [Lua.repr_injective hprint'.symm]
      exact le_toDouble_of_lt hn le_rfl
    · exact le_toDouble_of_lt hk (by omega)
  | negSucc n =>
    have hdigits := Lua.isDigits_repr k
    rw [← hprint] at hdigits
    change Lua.isDigits ("-" ++ Lua.toStr (Lua.toDouble (n + 1))) = true at hdigits
    rw [Lua.isDigits_minus] at hdigits
    cases hdigits

theorem setIdKey_issues {s : Queue} {n : Int} (h : Lua.incr s.idKey = some n) :
    Issues s (printId n) (s.setIdKey n.repr) := by
  have hlimit := printLimit_lt
  refine ⟨rfl, ?_, fun k hk => printId_reached s hk⟩
  intro k hk hle
  rcases counter_of_incr h with ⟨v, rfl, hv⟩ | ⟨-, hzero⟩
  · rw [repr_natCast, counter_setIdKey]
    rw [hv] at hle
    rcases Nat.lt_or_ge v (2 ^ 53) with hv' | hv'
    · rw [Lua.toDouble_of_lt hv'] at hle
      exact le_toDouble_of_lt hk (by omega)
    · exact le_toDouble_of_lt hk (by omega)
  · omega

theorem incrId_eq_some {s s' : Queue} {J : JobId} (h : incrId s = some (s', J)) :
    ∃ n, Lua.incr s.idKey = some n ∧ s' = s.setIdKey n.repr ∧ J = printId n := by
  unfold incrId at h
  obtain ⟨n, hn, heq⟩ := Option.map_eq_some_iff.mp h
  simp only [Prod.mk.injEq] at heq
  exact ⟨n, hn, heq.1.symm, heq.2.symm⟩

theorem incrId_issues {s s' : Queue} {J : JobId} (h : incrId s = some (s', J)) : Issues s J s' := by
  obtain ⟨n, hn, rfl, rfl⟩ := incrId_eq_some h
  exact setIdKey_issues hn

/-! ## Allocation -/

/-- What an allocation leaves, whatever it replies. -/
structure Allocates (s s' : Queue) (r : AddResult) : Prop where
  jobs : s'.jobs = s.jobs
  grows : CounterGrows s s'
  reached : ∀ J, r = .added J → ∀ k < printLimit, J = k.repr → k ≤ s'.counter

theorem Issues.allocates {s s' : Queue} {J : JobId} (h : Issues s J s') :
    Allocates s s' (.added J) where
  jobs := h.jobs
  grows := h.grows
  reached := by rintro K ⟨⟩; exact h.reached

theorem allocates_self {s : Queue} {r : AddResult} (h : ∀ J, r ≠ .added J) : Allocates s s r :=
  ⟨rfl, CounterGrows.refl s, fun J hr => absurd hr (h J)⟩

theorem Allocates.after {s t u : Queue} {r : AddResult} {J : JobId} (h : Issues s J t)
    (h' : Allocates t u r) : Allocates s u r :=
  ⟨h'.jobs.trans h.jobs, h.grows.trans h'.grows, h'.reached⟩

theorem allocateId_allocates (s : Queue) (c : Option JobId) :
    Allocates s (allocateId s c).1 (allocateId s c).2 := by
  unfold allocateId
  split
  · split
    · exact (advanceIdCounter_issues s _).allocates
    · exact allocates_self (by simp)
  · split
    · rename_i h; exact (incrId_issues h).allocates
    · exact allocates_self (by simp)

theorem skipUsedIds_allocates :
    ∀ (retries : Nat) (s t : Queue) (J : JobId), Issues s J t →
      Allocates s (skipUsedIds retries t J).1 (skipUsedIds retries t J).2
  | 0, s, t, J, h => by
    rw [skipUsedIds]
    split
    · exact h.allocates
    · exact Allocates.after h (allocates_self (by simp))
  | retries + 1, s, t, J, h => by
    rw [skipUsedIds]
    split
    · exact h.allocates
    · split
      · rename_i u K hincr
        exact Allocates.after h (skipUsedIds_allocates retries t u K (incrId_issues hincr))
      · exact Allocates.after h (allocates_self (by simp))

theorem allocateFlowId_allocates (s : Queue) (c : Option JobId) :
    Allocates s (allocateFlowId s c).1 (allocateFlowId s c).2 := by
  unfold allocateFlowId
  split
  · split
    · exact (advanceIdCounter_issues s _).allocates
    · exact allocates_self (by simp)
  · split
    · rename_i h; exact skipUsedIds_allocates 999 s _ _ (incrId_issues h)
    · exact allocates_self (by simp)

theorem skipUsedIds_free :
    ∀ (retries : Nat) (s : Queue) (J : JobId) {K : JobId},
      (skipUsedIds retries s J).2 = .added K → (skipUsedIds retries s J).1.jobs K = none
  | 0, s, J, K, h => by
    rw [skipUsedIds] at h ⊢
    by_cases hfree : s.jobs J = none
    · rw [if_pos hfree] at h ⊢
      cases h
      exact hfree
    · rw [if_neg hfree] at h; cases h
  | retries + 1, s, J, K, h => by
    rw [skipUsedIds] at h ⊢
    by_cases hfree : s.jobs J = none
    · rw [if_pos hfree] at h ⊢
      cases h
      exact hfree
    · rw [if_neg hfree] at h ⊢
      cases hincr : incrId s with
      | none => simp [hincr] at h
      | some r =>
        simp only [hincr] at h ⊢
        exact skipUsedIds_free retries r.1 r.2 h

theorem allocateFlowId_free {s : Queue} {c : Option JobId} {J : JobId}
    (h : (allocateFlowId s c).2 = .added J) : s.jobs J = none := by
  have hjobs := (allocateFlowId_allocates s c).jobs
  rw [← hjobs]
  unfold allocateFlowId at h ⊢
  cases c with
  | some K =>
    by_cases hfree : s.jobs K = none
    · simp only [if_pos hfree] at h ⊢
      cases h
      rw [(advanceIdCounter_issues s _).jobs, hfree]
    · simp [if_neg hfree] at h
  | none =>
    cases hincr : incrId s with
    | none => simp [hincr] at h
    | some r =>
      simp only [hincr] at h ⊢
      exact skipUsedIds_free 999 _ _ h

/-! ## The invariant -/

/-- An existing id that is a plain number below the limit has been passed by the counter. -/
def CountsIds (s : Queue) : Prop := ∀ k < printLimit, s.jobs k.repr ≠ none → k ≤ s.counter

/-- No id is new but those of `new`. -/
def AddsOnly (s s' : Queue) (new : JobId → Prop) : Prop :=
  ∀ K, s'.jobs K ≠ none → new K ∨ s.jobs K ≠ none

theorem CountsIds.step {s s' : Queue} {r : AddResult} {t : Queue} (h : CountsIds s)
    (halloc : Allocates s t r) (hid : s'.idKey = t.idKey)
    (hjobs : AddsOnly s s' fun K => r = .added K) : CountsIds s' := by
  intro k hk hexists
  have hgrows : CounterGrows t s' := CounterGrows.of_idKey_eq hid
  rcases hjobs _ hexists with hnew | hold
  · exact hgrows k hk (halloc.reached _ hnew k hk rfl)
  · exact hgrows k hk (halloc.grows k hk (h k hk hold))

theorem CountsIds.same {s s' : Queue} (h : CountsIds s) (hid : s'.idKey = s.idKey)
    (hjobs : AddsOnly s s' fun _ => False) : CountsIds s' := by
  intro k hk hexists
  rcases hjobs _ hexists with hnew | hold
  · exact hnew.elim
  · exact CounterGrows.of_idKey_eq hid k hk (h k hk hold)

theorem CountsIds.free {s : Queue} (h : CountsIds s) {n : Int} (hn : Lua.incr s.idKey = some n)
    (hpos : 0 < n) (hlt : n < printLimit) : s.jobs (printId n) = none := by
  have hlimit := printLimit_lt
  rcases counter_of_incr hn with ⟨v, rfl, hv⟩ | ⟨hle, -⟩
  · have hv' : v + 1 < printLimit := by omega
    rw [printId_of_lt hv']
    by_contra hexists
    have hle := h (v + 1) hv' hexists
    rw [hv, Lua.toDouble_of_lt (by omega)] at hle
    omega
  · omega

/-! ## New hashes -/

@[simp] theorem issueSeq_jobs (s : Queue) (k : Option GroupKey) : (issueSeq s k).1.jobs = s.jobs := by
  unfold issueSeq; split <;> rfl

@[simp] theorem issueSeq_idKey (s : Queue) (k : Option GroupKey) :
    (issueSeq s k).1.idKey = s.idKey := by
  unfold issueSeq; split <;> rfl

@[simp] theorem registerInDeps_jobs (s : Queue) (a : AddArgs) (J : JobId) :
    (registerInDeps s a J).jobs = s.jobs := by
  unfold registerInDeps
  repeat' split
  all_goals rfl

@[simp] theorem registerInDeps_idKey (s : Queue) (a : AddArgs) (J : JobId) :
    (registerInDeps s a J).idKey = s.idKey := by
  unfold registerInDeps
  repeat' split
  all_goals rfl

@[simp] theorem enqueueNew_jobs (s : Queue) (J : JobId) (t d : Int) (p : Nat) (l : Bool) :
    (enqueueNew s J t d p l).jobs = s.jobs := by
  unfold enqueueNew
  repeat' split
  all_goals rfl

@[simp] theorem enqueueNew_idKey (s : Queue) (J : JobId) (t d : Int) (p : Nat) (l : Bool) :
    (enqueueNew s J t d p l).idKey = s.idKey := by
  unfold enqueueNew
  repeat' split
  all_goals rfl

theorem createJob_jobs (s : Queue) (J : JobId) (a : AddArgs) (replaced : List JobId) :
    (createJob s J a replaced).jobs =
      Function.update s.jobs J
        (some (a.fields (issueSeq s a.orderingKey).2 replaced ((s.jobs J).getD {}))) := by
  unfold createJob
  cases a.orderingKey <;> simp [issueSeq, upsertGroupConfig]

@[simp] theorem createJob_idKey (s : Queue) (J : JobId) (a : AddArgs) (replaced : List JobId) :
    (createJob s J a replaced).idKey = s.idKey := by
  unfold createJob
  cases a.orderingKey <;> simp [issueSeq, upsertGroupConfig]

theorem createFlowParent_jobs (s : Queue) (J : JobId) (p : FlowParent) :
    (createFlowParent s J p).jobs =
      Function.update s.jobs J
        (some (flowFields p.opts p.timestamp p.delay p.priority (issueSeq s p.opts.orderingKey).2
          .waitingChildren ((s.jobs J).getD {}))) := by
  unfold createFlowParent upsertFlowGroup
  cases p.opts.orderingKey <;> simp [issueSeq]

@[simp] theorem createFlowParent_idKey (s : Queue) (J : JobId) (p : FlowParent) :
    (createFlowParent s J p).idKey = s.idKey := by
  unfold createFlowParent upsertFlowGroup
  cases p.opts.orderingKey <;> simp [issueSeq]

theorem createFlowChild_jobs_of_ne {s : Queue} {J K : JobId} (h : K ≠ J) (c : FlowChild)
    (q : QueueName) (P : JobId) (t t' : Int) :
    (createFlowChild s J c q P t t').jobs K = s.jobs K := by
  unfold createFlowChild upsertFlowGroup
  cases c.opts.orderingKey <;> simp [issueSeq, h]

@[simp] theorem createFlowChild_idKey (s : Queue) (J : JobId) (c : FlowChild) (q : QueueName)
    (P : JobId) (t t' : Int) : (createFlowChild s J c q P t t').idKey = s.idKey := by
  unfold createFlowChild upsertFlowGroup
  cases c.opts.orderingKey <;> simp [issueSeq]

theorem addsOnly_update {s s' : Queue} {J : JobId} {j : Job}
    (h : s'.jobs = Function.update s.jobs J (some j)) : AddsOnly s s' (· = J) := by
  intro K hK
  by_cases hJ : K = J
  · exact Or.inl hJ
  · rw [h, Function.update_of_ne hJ] at hK
    exact Or.inr hK

/-! ## Single jobs -/

theorem countsIds_addJob {s : Queue} (h : CountsIds s) (a : AddArgs) : CountsIds (addJob s a).1 := by
  unfold addJob
  split
  · exact h
  split
  · exact h
  have halloc := allocateId_allocates s a.customJobId
  split
  · rename_i t J heq
    rw [heq] at halloc
    refine h.step halloc (by simp) ?_
    intro K hK
    simp only [enqueueNew_jobs] at hK
    rcases addsOnly_update (createJob_jobs t J a []) K hK with hJ | hold
    · exact Or.inl (by rw [hJ])
    · rw [halloc.jobs] at hold
      exact Or.inr hold
  · refine h.step halloc rfl fun K hK => Or.inr ?_
    rwa [halloc.jobs] at hK

/-! ## Deduplicated jobs -/

theorem frame_removeReplaced (s : Queue) (J : JobId) (t t' : Int) :
    ∃ u : Queue, u.frame = (s.zremScheduled J).frame ∧
      (removeReplaced s J t t').1 = (u.unlinkJob J).unlinkParents J := by
  unfold removeReplaced
  refine ⟨_, ?_, rfl⟩
  split <;> simp

theorem removeReplaced_idKey (s : Queue) (J : JobId) (t t' : Int) :
    (removeReplaced s J t t').1.idKey = s.idKey := by
  obtain ⟨u, hu, heq⟩ := frame_removeReplaced s J t t'
  have hid : u.idKey = (s.zremScheduled J).idKey := frame_idKey hu
  rw [heq]
  exact hid

theorem removeReplaced_jobs_none (s : Queue) (J : JobId) (t t' : Int) (K : JobId) :
    (removeReplaced s J t t').1.jobs K = none ↔ K = J ∨ s.jobs K = none := by
  obtain ⟨u, hu, heq⟩ := frame_removeReplaced s J t t'
  have hnone : u.jobs K = none ↔ s.jobs K = none := frame_jobs_none hu K
  rw [heq]
  simp only [unlinkParents_jobs, unlinkJob_jobs, Function.update_apply]
  split
  · simp [*]
  · simp [*]

@[simp] theorem foldl_saddParents_jobs (ps : List DepMember) (s : Queue) (J : JobId) :
    (ps.foldl (fun s p => s.saddParents J p) s).jobs = s.jobs := by
  induction ps generalizing s with
  | nil => rfl
  | cons p ps ih => rw [List.foldl_cons, ih]; rfl

@[simp] theorem foldl_saddParents_idKey (ps : List DepMember) (s : Queue) (J : JobId) :
    (ps.foldl (fun s p => s.saddParents J p) s).idKey = s.idKey := by
  induction ps generalizing s with
  | nil => rfl
  | cons p ps ih => rw [List.foldl_cons, ih]; rfl

theorem resolveRemovedChildParents_idKey (s : Queue) (J : JobId) (edges : ChildParents) :
    (resolveRemovedChildParents s J edges).1.idKey = s.idKey :=
  parentFrame_idKey (parentFrame_resolveRemovedChildParents s J edges)

theorem createReplacement_idKey (s : Queue) (J old : JobId) (edges : ChildParents) (a : AddArgs) :
    (createReplacement s J old edges a).idKey = s.idKey := by
  unfold createReplacement
  simp only
  split <;> simp [resolveRemovedChildParents_idKey]

theorem createReplacement_jobs_none (s : Queue) (J old : JobId) (edges : ChildParents)
    (a : AddArgs) (K : JobId) :
    (createReplacement s J old edges a).jobs K = none ↔ K ≠ J ∧ s.jobs K = none := by
  unfold createReplacement
  simp only
  split
  all_goals
    rw [parentFrame_jobs_none (parentFrame_resolveRemovedChildParents _ _ _)]
    simp only [foldl_saddParents_jobs, createJob_jobs, Function.update_apply]
    split
    all_goals
      rename_i hK
      simp [hK]

theorem countsIds_dedupAdd {s : Queue} (h : CountsIds s) (a : DedupArgs)
    (replaced : Option (JobId × ChildParents)) : CountsIds (dedupAdd s a replaced).1 := by
  have halloc := allocateId_allocates s a.customJobId
  unfold dedupAdd
  split
  · rename_i t J heq
    rw [heq] at halloc
    refine h.step halloc ?_ ?_
    · cases replaced <;> simp [createReplacement_idKey]
    · intro K hK
      by_cases hJ : K = J
      · exact Or.inl (by rw [hJ])
      · refine Or.inr fun hnone => hK ?_
        have ht : t.jobs K = none := by rw [halloc.jobs]; exact hnone
        cases replaced with
        | none => simpa [createJob_jobs, Function.update_of_ne hJ] using ht
        | some r => simpa [createReplacement_jobs_none] using ⟨hJ, ht⟩
  · rename_i t heq
    rw [heq] at halloc
    have ht : CountsIds t := by
      refine h.step halloc rfl fun K hK => Or.inr ?_
      rwa [halloc.jobs] at hK
    cases replaced with
    | none => exact ht
    | some r =>
      refine ht.same (resolveRemovedChildParents_idKey _ _ _) fun K hK => Or.inr fun hnone => hK ?_
      exact (parentFrame_jobs_none (parentFrame_resolveRemovedChildParents _ _ _) K).mpr hnone
  · refine h.step halloc rfl fun K hK => Or.inr ?_
    rwa [halloc.jobs] at hK

theorem countsIds_removeReplaced {s : Queue} (h : CountsIds s) (J : JobId) (t t' : Int) :
    CountsIds (removeReplaced s J t t').1 := by
  refine h.same (removeReplaced_idKey s J t t') fun K hK => Or.inr fun hnone => hK ?_
  exact (removeReplaced_jobs_none s J t t' K).mpr (Or.inr hnone)

theorem countsIds_dedup {s : Queue} (h : CountsIds s) (a : DedupArgs) : CountsIds (dedup s a).1 := by
  unfold dedup
  split
  · exact h
  split
  · exact h
  split
  · exact h
  · exact countsIds_dedupAdd h a none
  · exact countsIds_dedupAdd (countsIds_removeReplaced h _ _ _) a _

/-! ## Flows -/

theorem countsIds_foldl_saddDeps {s : Queue} (h : CountsIds s) (P : JobId) (ms : List DepMember) :
    CountsIds (ms.foldl (fun s m => s.saddDeps P m) s) := by
  induction ms generalizing s with
  | nil => exact h
  | cons m ms ih => exact ih (h.same rfl fun K hK => Or.inr hK)

theorem countsIds_allocateFlowId {s : Queue} (h : CountsIds s) (c : Option JobId) :
    CountsIds (allocateFlowId s c).1 := by
  have halloc := allocateFlowId_allocates s c
  refine h.step halloc rfl fun K hK => Or.inr ?_
  rwa [halloc.jobs] at hK

theorem countsIds_createFlowChild {s : Queue} (h : CountsIds s) {c : FlowChild} {J : JobId}
    (hJ : (allocateFlowId s c.customId).2 = .added J) (q : QueueName) (P : JobId) (t t' : Int) :
    CountsIds (createFlowChild (allocateFlowId s c.customId).1 J c q P t t') := by
  have halloc := allocateFlowId_allocates s c.customId
  refine h.step halloc (by simp) fun K hK => ?_
  by_cases hKJ : K = J
  · exact Or.inl (by rw [hJ, hKJ])
  · rw [createFlowChild_jobs_of_ne hKJ, halloc.jobs] at hK
    exact Or.inr hK

/-- The system after one round of the child loop. -/
def afterChild (a : FlowArgs) (P : JobId) (S : Sys) (c : FlowChild) (s : Queue) (J : JobId) : Sys :=
  onQueue
    (Function.update S c.queue
      (createFlowChild s J c a.queue P a.parent.timestamp a.parent.serverNow))
    a.queue (·.saddDeps P ⟨c.queue, J⟩)

theorem countsIds_afterChild {S : Sys} (h : ∀ q, CountsIds (S q)) {c : FlowChild} {s : Queue}
    {J : JobId} (hr : allocateFlowId (S c.queue) c.customId = (s, .added J)) (a : FlowArgs)
    (P : JobId) : ∀ q, CountsIds (afterChild a P S c s J q) := by
  have hchild : CountsIds
      (createFlowChild s J c a.queue P a.parent.timestamp a.parent.serverNow) := by
    have := countsIds_createFlowChild (h c.queue) (by rw [hr]) a.queue P a.parent.timestamp
      a.parent.serverNow
    rwa [hr] at this
  have hS : ∀ q, CountsIds (Function.update S c.queue
      (createFlowChild s J c a.queue P a.parent.timestamp a.parent.serverNow) q) :=
    Machine.forall_update h hchild
  exact Machine.forall_update hS ((hS a.queue).same rfl fun K hK => Or.inr hK)

theorem countsIds_addFlowChildren (a : FlowArgs) (P : JobId) :
    ∀ (cs : List FlowChild) (S : Sys) (ids : List JobId), (∀ q, CountsIds (S q)) →
      ∀ q, CountsIds ((addFlowChildren a P cs S ids).1 q)
  | [], S, ids, h => h
  | c :: cs, S, ids, h => by
    have halloc := countsIds_allocateFlowId (h c.queue) c.customId
    rw [addFlowChildren]
    rcases hr : allocateFlowId (S c.queue) c.customId with ⟨s, r⟩
    rw [hr] at halloc
    cases r with
    | added J => exact countsIds_addFlowChildren a P cs _ _ (countsIds_afterChild h hr a P)
    | _ => exact Machine.forall_update h halloc

theorem countsIds_createFlowParent {S : Sys} (h : ∀ q, CountsIds (S q)) {a : FlowArgs} {s : Queue}
    {P : JobId} (hr : allocateFlowId (S a.queue) a.parent.customId = (s, .added P)) :
    ∀ q, CountsIds
      (onQueue (Function.update S a.queue s) a.queue (createFlowParent · P a.parent) q) := by
  have halloc := allocateFlowId_allocates (S a.queue) a.parent.customId
  rw [hr] at halloc
  have hparent : CountsIds (createFlowParent s P a.parent) := by
    refine (h a.queue).step halloc (by simp) fun K hK => ?_
    rcases addsOnly_update (createFlowParent_jobs s P a.parent) K hK with hP | hold
    · exact Or.inl (by rw [hP])
    · rw [halloc.jobs] at hold
      exact Or.inr hold
  rw [onQueue, Function.update_idem, Function.update_self]
  exact Machine.forall_update h hparent

theorem countsIds_addFlow {S : Sys} (h : ∀ q, CountsIds (S q)) (a : FlowArgs) :
    ∀ q, CountsIds ((addFlow S a).1 q) := by
  have halloc := countsIds_allocateFlowId (h a.queue) a.parent.customId
  unfold addFlow
  split
  · exact h
  split
  · exact h
  split
  · exact h
  rcases hr : allocateFlowId (S a.queue) a.parent.customId with ⟨s, r⟩
  rw [hr] at halloc
  have hS : ∀ q, CountsIds (Function.update S a.queue s q) := Machine.forall_update h halloc
  cases r with
  | added P =>
    simp only
    split
    · exact hS
    · have hchildren := countsIds_addFlowChildren a P a.children _ []
        (countsIds_createFlowParent h hr)
      split
      · rename_i heq
        rw [heq] at hchildren
        exact Machine.forall_update hchildren (countsIds_foldl_saddDeps (hchildren _) _ _)
      · exact hchildren
  | _ => exact hS

theorem countsIds_addStep {S : Sys} (h : ∀ q, CountsIds (S q)) (c : AddCall) :
    ∀ q, CountsIds (addStep S c q) := by
  cases c with
  | addJob q a => exact Machine.forall_update h (countsIds_addJob (h q) a)
  | dedup q a => exact Machine.forall_update h (countsIds_dedup (h q) a)
  | addFlow a => exact countsIds_addFlow h a

end GlideMq
