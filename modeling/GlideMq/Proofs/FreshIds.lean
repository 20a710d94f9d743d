import GlideMq.Proofs.JobIds

/-!
# Fresh ids

A call that adds jobs takes ids that are not in use, as long as the counter stays a number that
`INCR` reads and `tostring` prints in full.
-/

namespace GlideMq

open Queue

/-! ## Fresh ids -/

/-- The next automatic id: `INCR` accepts the counter, and the id is a positive number that prints as
it is. -/
def NextIdFits (id : Option String) : Prop := ∃ n, Lua.incr id = some n ∧ 0 < n ∧ n < printLimit

/-- The call is refused for its priority or its cost before it takes an id. -/
def AddArgs.refused (a : AddArgs) : Bool :=
  maxPriority < a.priority ∨ costExceeds a.orderingKey.isSome a.group.tbCapacity a.jobCost

/-- What is right about a single added job: its id was not in use, and no id was missing. -/
structure AddedFresh (s : Queue) (priority : Nat) (r : AddResult) : Prop where
  fresh : ∀ J, r = .added J → s.jobs J = none
  allocated : priority ≤ maxPriority → r ≠ .error

theorem allocateId_added {s : Queue} {c : Option JobId} {J : JobId}
    (h : (allocateId s c).2 = .added J) :
    (c = some J ∧ s.jobs J = none) ∨
      (c = none ∧ ∃ n, Lua.incr s.idKey = some n ∧ J = printId n) := by
  unfold allocateId at h
  cases c with
  | some K =>
    by_cases hfree : s.jobs K = none
    · obtain rfl : K = J := by simpa [hfree] using h
      exact Or.inl ⟨rfl, hfree⟩
    · simp [hfree] at h
  | none =>
    cases hincr : incrId s with
    | none => simp [hincr] at h
    | some r =>
      obtain rfl : r.2 = J := by simpa [hincr] using h
      obtain ⟨n, hn, _, hJ⟩ := @incrId_eq_some _ r.1 r.2 hincr
      exact Or.inr ⟨rfl, n, hn, hJ⟩

theorem allocateId_ne_error {s : Queue} {c : Option JobId} (h : c = none → NextIdFits s.idKey) :
    (allocateId s c).2 ≠ .error := by
  unfold allocateId
  cases c with
  | some K => by_cases hfree : s.jobs K = none <;> simp [hfree]
  | none =>
    obtain ⟨n, hn, -⟩ := h rfl
    simp [incrId, hn]

theorem CountsIds.allocateId_fresh {s : Queue} (h : CountsIds s) {c : Option JobId} {J : JobId}
    (hfit : c = none → NextIdFits s.idKey) (hJ : (allocateId s c).2 = .added J) :
    s.jobs J = none := by
  rcases allocateId_added hJ with ⟨_, hfree⟩ | ⟨hc, n, hn, rfl⟩
  · exact hfree
  · obtain ⟨m, hm, hpos, hlt⟩ := hfit hc
    obtain rfl : m = n := Option.some.inj (hm.symm.trans hn)
    exact h.free hn hpos hlt

theorem addJob_fresh {s : Queue} (h : CountsIds s) {a : AddArgs}
    (hfit : a.refused = false → a.customJobId = none → NextIdFits s.idKey) :
    AddedFresh s a.priority (addJob s a).2 := by
  unfold addJob
  split
  · exact ⟨by simp, by omega⟩
  split
  · exact ⟨by simp, by simp⟩
  rename_i hpriority hcost
  replace hfit := hfit (by simpa [AddArgs.refused, hcost] using hpriority)
  split
  · rename_i t J heq
    refine ⟨fun K hK => h.allocateId_fresh hfit ?_, by simp⟩
    rwa [heq]
  · exact ⟨fun J hJ => h.allocateId_fresh hfit hJ, fun _ => allocateId_ne_error hfit⟩

theorem addJob_jobs_of_ne {s : Queue} {a : AddArgs} {K : JobId}
    (hne : (addJob s a).2 ≠ .added K) : (addJob s a).1.jobs K = s.jobs K := by
  have halloc := allocateId_allocates s a.customJobId
  unfold addJob at hne ⊢
  split
  · rfl
  split
  · rfl
  split
  · rename_i hprio hcost _ t J heq
    rw [if_neg hprio, if_neg hcost, heq] at hne
    rw [heq] at halloc
    have hJ : K ≠ J := fun hK => hne (by rw [hK])
    rw [enqueueNew_jobs, createJob_jobs, Function.update_of_ne hJ, halloc.jobs]
  · exact congrFun halloc.jobs K

theorem dedupAdd_reply (s : Queue) (a : DedupArgs) (replaced : Option (JobId × ChildParents)) :
    (dedupAdd s a replaced).2 = (allocateId s a.customJobId).2 := by
  unfold dedupAdd
  split
  · rename_i heq; rw [heq]
  · rename_i heq; rw [heq]; cases replaced <;> rfl
  · rfl

theorem dedup_fresh {s : Queue} (h : CountsIds s) {a : DedupArgs}
    (hfit : a.refused = false → dedupDecision s a ≠ .skip →
      (a.customJobId = none → NextIdFits s.idKey) ∧
        ∀ J, dedupDecision s a = .replace J → a.customJobId ≠ some J) :
    AddedFresh s a.priority (dedup s a).2 := by
  -- A debounced job that is replaced under its own id is the one exception.
  unfold dedup
  split
  · exact ⟨by simp, by omega⟩
  split
  · exact ⟨by simp, by simp⟩
  rename_i hpriority hcost
  replace hfit := hfit (by simpa [AddArgs.refused, hcost] using hpriority)
  split
  · exact ⟨by simp, by simp⟩
  · rename_i hadd
    obtain ⟨hfit, -⟩ := hfit (by simp [hadd])
    rw [dedupAdd_reply]
    exact ⟨fun J hJ => h.allocateId_fresh hfit hJ, fun _ => allocateId_ne_error hfit⟩
  · rename_i old hold
    obtain ⟨hfit, hown⟩ := hfit (by simp [hold])
    have hid := removeReplaced_idKey s old a.timestamp a.serverNow
    rw [dedupAdd_reply]
    refine ⟨fun J hJ => ?_, fun _ => allocateId_ne_error (by rwa [hid])⟩
    rcases allocateId_added hJ with ⟨hc, hfree⟩ | ⟨hc, n, hn, rfl⟩
    · rcases (removeReplaced_jobs_none s old _ _ J).mp hfree with rfl | hfree
      · exact (hown J hold hc).elim
      · exact hfree
    · obtain ⟨m, hm, hpos, hlt⟩ := hfit hc
      rw [hid] at hn
      obtain rfl : m = n := Option.some.inj (hm.symm.trans hn)
      exact h.free hn hpos hlt

/-! ## What a deduplicated add leaves of the others -/

/-- The fields of a hash that only an add or the worker writes. The bookkeeping of groups and parents
may move the job and end it. -/
def Job.contents (j : Job) : Job := j.fixed.fixedByParents

/-- The hash of `K` is there with the same contents, or still missing. -/
def SameContents (s t : Queue) (K : JobId) : Prop := (t.jobs K).map Job.contents = (s.jobs K).map Job.contents

section

variable {s t u : Queue} {K : JobId}

theorem SameContents.of_jobs (h : t.jobs K = s.jobs K) : SameContents s t K := congrArg (Option.map Job.contents) h

theorem SameContents.trans (h : SameContents s t K) (h' : SameContents t u K) : SameContents s u K :=
  Eq.trans h' h

theorem SameContents.of_frame (h : t.frame = s.frame) (K : JobId) : SameContents s t K := by
  have hfixed := congrArg (Option.map Job.fixedByParents) (frame_jobs_eq h K)
  simp only [Option.map_map] at hfixed
  exact hfixed

theorem SameContents.of_parentFrame (h : t.parentFrame = s.parentFrame) (K : JobId) : SameContents s t K := by
  have hfixed := congrArg (Option.map Job.fixed) (parentFrame_jobs_eq h K)
  simp only [Option.map_map] at hfixed
  exact hfixed

theorem removeReplaced_contents (s : Queue) {J : JobId} (hne : K ≠ J) (timestamp serverNow : Int) :
    SameContents s (removeReplaced s J timestamp serverNow).1 K := by
  obtain ⟨u, hu, heq⟩ := frame_removeReplaced s J timestamp serverNow
  have hkept : SameContents s u K := SameContents.of_frame hu K
  rw [heq]
  exact hkept.trans (.of_jobs (by simp [unlinkParents_jobs, unlinkJob_jobs, hne]))

theorem createReplacement_contents (s : Queue) {J : JobId} (hne : K ≠ J) (old : JobId) (edges : ChildParents)
    (a : AddArgs) : SameContents s (createReplacement s J old edges a) K := by
  unfold createReplacement
  simp only
  split
  all_goals
    refine SameContents.trans ?_ (.of_parentFrame (parentFrame_resolveRemovedChildParents _ _ _) K)
    apply SameContents.of_jobs
    simp [createJob_jobs, Function.update_of_ne hne]

theorem dedupAdd_contents (s : Queue) (a : DedupArgs) (replaced : Option (JobId × ChildParents))
    (hne : (dedupAdd s a replaced).2 ≠ .added K) : SameContents s (dedupAdd s a replaced).1 K := by
  have halloc := (allocateId_allocates s a.customJobId).jobs
  rw [dedupAdd_reply] at hne
  unfold dedupAdd
  split
  · rename_i t J heq
    rw [heq] at halloc hne
    have hJ : K ≠ J := fun hK => hne (by rw [hK])
    refine SameContents.trans (.of_jobs (congrFun halloc K)) ?_
    cases replaced with
    | none => exact .of_jobs (by simp [createJob_jobs, Function.update_of_ne hJ])
    | some r => exact (createReplacement_contents t hJ r.1 r.2 a.toAddArgs).trans (.of_jobs (by simp))
  · rename_i t heq
    rw [heq] at halloc
    refine SameContents.trans (.of_jobs (congrFun halloc K)) ?_
    cases replaced with
    | none => exact .of_jobs rfl
    | some r => exact .of_parentFrame (parentFrame_resolveRemovedChildParents t r.1 r.2) K
  · exact .of_jobs (congrFun halloc K)

/-- Apart from the job that it replaces, a deduplicated add keeps what a hash contains. -/
theorem dedup_contents {a : DedupArgs} (hne : (dedup s a).2 ≠ .added K) (hold : dedupDecision s a ≠ .replace K) :
    SameContents s (dedup s a).1 K := by
  unfold dedup at hne ⊢
  split
  · exact .of_jobs rfl
  split
  · exact .of_jobs rfl
  rename_i hpriority hcost
  rw [if_neg hpriority, if_neg hcost] at hne
  cases hd : dedupDecision s a with
  | skip => exact .of_jobs rfl
  | add =>
    rw [hd] at hne
    exact dedupAdd_contents s a none hne
  | replace J =>
    rw [hd] at hne hold
    have hJ : K ≠ J := fun hK => hold (by rw [hK])
    exact (removeReplaced_contents s hJ a.timestamp a.serverNow).trans (dedupAdd_contents _ a _ hne)

end

/-! ## Fresh ids of a flow -/

/-- The `id` key after a job took its id. -/
def idKeyAfter (id : Option String) : Option JobId → Option String
  | some J =>
    if Lua.isDigits J ∧ 0 < Lua.toNumber J ∧ counterOf id < Lua.toNumber J then some J else id
  | none => (Lua.incr id).map Int.repr

/-- The jobs of a flow, as they take their ids. -/
def FlowArgs.takes (a : FlowArgs) : List (QueueName × Option JobId) :=
  (a.queue, a.parent.customId) :: a.children.map fun c => (c.queue, c.customId)

/-- Each automatic id of a flow fits, given the `id` keys. -/
def FlowIdsFit (ids : QueueName → Option String) : List (QueueName × Option JobId) → Prop
  | [] => True
  | (q, c) :: rest =>
    (c = none → NextIdFits (ids q)) ∧
      FlowIdsFit (Function.update ids q (idKeyAfter (ids q) c)) rest

/-- What is right about the result of a flow: it changes no job that was there before, its ids
were not in use, and no id was missing. -/
structure FlowFresh (S : Sys) (a : FlowArgs) (r : Sys × FlowResult) : Prop where
  kept : ∀ q K j, (S q).jobs K = some j → (r.1 q).jobs K = some j
  parent : ∀ P ids, r.2 = .added P ids → (S a.queue).jobs P = none
  children : ∀ P ids, r.2 = .added P ids → ∀ p ∈ a.children.zip ids, (S p.1.queue).jobs p.2 = none
  allocated : a.parent.priority ≤ maxPriority → (∀ c ∈ a.children, c.priority ≤ maxPriority) →
    r.2 ≠ .error ∧ r.2 ≠ .idExhausted

theorem CountsIds.allocateFlowId_fits {s : Queue} (h : CountsIds s) {c : Option JobId}
    (hfit : c = none → NextIdFits s.idKey) :
    (allocateFlowId s c).1.idKey = idKeyAfter s.idKey c ∧
        (∃ J, (allocateFlowId s c).2 = .added J) ∨
      (allocateFlowId s c).2 = .duplicate := by
  unfold allocateFlowId
  cases c with
  | some K =>
    by_cases hfree : s.jobs K = none
    · refine Or.inl ⟨?_, K, by simp [hfree]⟩
      simp only [if_pos hfree, advanceIdCounter, idKeyAfter]
      split <;> rfl
    · exact Or.inr (by simp [hfree])
  | none =>
    obtain ⟨n, hn, hpos, hlt⟩ := hfit rfl
    have hfree : s.jobs (Lua.printInt n) = none := h.free hn hpos hlt
    have hnext : incrId s = some (s.setIdKey n.repr, Lua.printInt n) := by simp [incrId, hn]
    have hskip : skipUsedIds 999 (s.setIdKey n.repr) (Lua.printInt n) =
        (s.setIdKey n.repr, .added (Lua.printInt n)) := if_pos hfree
    refine Or.inl ?_
    simp only [hnext, hskip, idKeyAfter, hn, Option.map_some]
    exact ⟨rfl, _, rfl⟩

/-- Later states have the jobs of earlier ones. -/
def KeepsJobs (S S' : Sys) : Prop := ∀ q K j, (S q).jobs K = some j → (S' q).jobs K = some j

theorem KeepsJobs.refl (S : Sys) : KeepsJobs S S := fun _ _ _ h => h

theorem KeepsJobs.trans {S T U : Sys} (h : KeepsJobs S T) (h' : KeepsJobs T U) : KeepsJobs S U :=
  fun q K j hj => h' q K j (h q K j hj)

theorem KeepsJobs.none {S S' : Sys} (h : KeepsJobs S S') {q : QueueName} {K : JobId}
    (hK : (S' q).jobs K = none) : (S q).jobs K = none := by
  cases hj : (S q).jobs K with
  | none => rfl
  | some j => rw [h q K j hj] at hK; cases hK

theorem keepsJobs_update {S : Sys} {q : QueueName} {s : Queue}
    (h : ∀ K j, (S q).jobs K = some j → s.jobs K = some j) :
    KeepsJobs S (Function.update S q s) := by
  intro p K j hj
  by_cases hp : p = q
  · subst hp; simpa using h K j hj
  · simpa [hp] using hj

theorem keepsJobs_allocateFlowId (S : Sys) (q : QueueName) (c : Option JobId) :
    KeepsJobs S (Function.update S q (allocateFlowId (S q) c).1) :=
  keepsJobs_update fun K j hj => by rw [(allocateFlowId_allocates (S q) c).jobs]; exact hj

theorem onQueue_saddDeps_jobs (S : Sys) (q p : QueueName) (P : JobId) (m : DepMember) (K : JobId) :
    (onQueue S q (·.saddDeps P m) p).jobs K = (S p).jobs K := by
  by_cases hp : p = q
  · subst hp; simp [onQueue]
  · simp [onQueue, hp]

theorem onQueue_foldl_saddDeps_jobs (S : Sys) (q p : QueueName) (P : JobId) (ms : List DepMember)
    (K : JobId) :
    (onQueue S q (fun s => ms.foldl (fun s m => s.saddDeps P m) s) p).jobs K = (S p).jobs K := by
  have hfold (s : Queue) : (ms.foldl (fun s m => s.saddDeps P m) s).jobs = s.jobs := by
    induction ms generalizing s with
    | nil => rfl
    | cons m ms ih => rw [List.foldl_cons, ih]; rfl
  by_cases hp : p = q
  · subst hp; simp [onQueue, hfold]
  · simp [onQueue, hp]

theorem keepsJobs_afterChild {S : Sys} {c : FlowChild} {s : Queue} {J : JobId}
    (hr : allocateFlowId (S c.queue) c.customId = (s, .added J)) (a : FlowArgs) (P : JobId) :
    KeepsJobs S (afterChild a P S c s J) := by
  have hfree : (S c.queue).jobs J = none := allocateFlowId_free (by rw [hr])
  have hjobs : s.jobs = (S c.queue).jobs := by
    have := (allocateFlowId_allocates (S c.queue) c.customId).jobs
    rwa [hr] at this
  intro q K j hj
  rw [afterChild, onQueue_saddDeps_jobs]
  refine keepsJobs_update (fun K j hj => ?_) q K j hj
  have hne : K ≠ J := by rintro rfl; rw [hfree] at hj; cases hj
  rw [createFlowChild_jobs_of_ne hne, hjobs, hj]

/-- The child loop changes no job that was there, and takes ids that are free. -/
theorem addFlowChildren_keeps (a : FlowArgs) (P : JobId) :
    ∀ (cs : List FlowChild) (S : Sys) (ids : List JobId),
      KeepsJobs S (addFlowChildren a P cs S ids).1 ∧
        ∀ Q ids', (addFlowChildren a P cs S ids).2 = .added Q ids' →
          Q = P ∧ ∃ new, ids' = ids ++ new ∧ ∀ p ∈ cs.zip new, (S p.1.queue).jobs p.2 = none
  | [], S, ids => ⟨KeepsJobs.refl S, by rintro Q ids' ⟨⟩; exact ⟨rfl, [], by simp⟩⟩
  | c :: cs, S, ids => by
    rw [addFlowChildren]
    have halloc := keepsJobs_allocateFlowId S c.queue c.customId
    rcases hr : allocateFlowId (S c.queue) c.customId with ⟨s, r⟩
    rw [hr] at halloc
    cases r with
    | added J =>
      have hchild := keepsJobs_afterChild hr a P
      obtain ⟨hkeeps, hids⟩ := addFlowChildren_keeps a P cs (afterChild a P S c s J) (ids ++ [J])
      refine ⟨hchild.trans hkeeps, fun Q ids' h => ?_⟩
      obtain ⟨hQ, new, rfl, hnew⟩ := hids Q ids' h
      refine ⟨hQ, J :: new, by simp, fun p hp => ?_⟩
      rcases List.mem_cons.mp hp with rfl | hp
      · exact allocateFlowId_free (by rw [hr])
      · exact hchild.none (hnew p hp)
    | _ => exact ⟨halloc, by rintro Q ids' ⟨⟩⟩

theorem addFlowChildren_allocates (a : FlowArgs) (P : JobId) :
    ∀ (cs : List FlowChild) (S : Sys) (ids : List JobId), (∀ q, CountsIds (S q)) →
      FlowIdsFit (fun q => (S q).idKey) (cs.map fun c => (c.queue, c.customId)) →
      (addFlowChildren a P cs S ids).2 ≠ .error ∧ (addFlowChildren a P cs S ids).2 ≠ .idExhausted
  | [], S, ids, _, _ => by simp [addFlowChildren]
  | c :: cs, S, ids, h, hfit => by
    rw [addFlowChildren]
    have hnext := (h c.queue).allocateFlowId_fits hfit.1
    rcases hr : allocateFlowId (S c.queue) c.customId with ⟨s, r⟩
    rw [hr] at hnext
    rcases hnext with ⟨hid, J, hJ⟩ | hdup
    · obtain rfl : r = .added J := hJ
      refine addFlowChildren_allocates a P cs (afterChild a P S c s J) (ids ++ [J])
        (countsIds_afterChild h hr a P) ?_
      have hkeys : (fun q => (afterChild a P S c s J q).idKey) =
          Function.update (fun q => (S q).idKey) c.queue (idKeyAfter (S c.queue).idKey c.customId) := by
  -- Where its ids fit, the child loop finds one for every child.
        funext q
        have hdeps : (afterChild a P S c s J q).idKey = (Function.update S c.queue
            (createFlowChild s J c a.queue P a.parent.timestamp a.parent.serverNow) q).idKey := by
          by_cases hq : q = a.queue
          · subst hq; simp [afterChild, onQueue]
          · simp [afterChild, onQueue, hq]
        rw [hdeps]
        by_cases hq : q = c.queue
        · subst hq; simpa using hid
        · simp [hq]
      rw [hkeys]
      exact hfit.2
    · obtain rfl : r = .duplicate := hdup
      simp [AddResult.toFlow]

theorem keepsJobs_createFlowParent {S : Sys} {s : Queue} {a : FlowArgs} {P : JobId}
    (hr : allocateFlowId (S a.queue) a.parent.customId = (s, .added P)) :
    KeepsJobs S (onQueue (Function.update S a.queue s) a.queue (createFlowParent · P a.parent)) := by
  have hfree : (S a.queue).jobs P = none := allocateFlowId_free (by rw [hr])
  have hjobs : s.jobs = (S a.queue).jobs := by
    have := (allocateFlowId_allocates (S a.queue) a.parent.customId).jobs
    rwa [hr] at this
  rw [onQueue, Function.update_idem, Function.update_self]
  refine keepsJobs_update fun K j hj => ?_
  have hne : K ≠ P := by rintro rfl; rw [hfree] at hj; cases hj
  rw [createFlowParent_jobs, Function.update_of_ne hne, hjobs, hj]

theorem flowFresh_of_not_added {S T : Sys} {a : FlowArgs} {r : FlowResult} (hkeeps : KeepsJobs S T)
    (hadded : ∀ P ids, r ≠ .added P ids)
    (hok : a.parent.priority ≤ maxPriority → (∀ c ∈ a.children, c.priority ≤ maxPriority) →
      r ≠ .error ∧ r ≠ .idExhausted) : FlowFresh S a (T, r) where
  kept := hkeeps
  parent P ids h := absurd h (hadded P ids)
  children P ids h := absurd h (hadded P ids)
  allocated := hok

/-- A flow is refused for the priority or the cost of one of its jobs. -/
def FlowArgs.refused (a : FlowArgs) : Bool :=
  a.parent.opts.exceeds || decide (maxPriority < a.parent.priority) ||
    a.children.any fun c => maxPriority < c.priority ∨ c.opts.exceeds

theorem addFlow_fresh {S : Sys} (h : ∀ q, CountsIds (S q)) {a : FlowArgs}
    (hfit : a.refused = false → FlowIdsFit (fun q => (S q).idKey) a.takes) : FlowFresh S a (addFlow S a) := by
  have hself := KeepsJobs.refl S
  unfold addFlow
  split
  · exact flowFresh_of_not_added hself (by simp) (by simp)
  split
  · exact flowFresh_of_not_added hself (by simp) (by omega)
  split
  · rename_i c hc
    refine flowFresh_of_not_added hself (by intro P ids; split <;> simp) fun _ hprio => ?_
    have := hprio c (List.mem_of_find?_eq_some hc)
    rw [if_neg (by omega)]
    simp
  rename_i hcost hpriority _ hchecked
  have hchildren : (a.children.any fun c => maxPriority < c.priority ∨ c.opts.exceeds) = false := by
    simpa using hchecked
  replace hfit := hfit (by simp only [FlowArgs.refused, hcost, hpriority, hchildren]; rfl)
  have hkeeps := keepsJobs_allocateFlowId S a.queue a.parent.customId
  have hnext := (h a.queue).allocateFlowId_fits hfit.1
  rcases hr : allocateFlowId (S a.queue) a.parent.customId with ⟨s, r⟩
  rw [hr] at hkeeps hnext
  rcases hnext with ⟨hid, P, hP⟩ | hdup
  · obtain rfl : r = .added P := hP
    simp only
    split
    · exact flowFresh_of_not_added hkeeps (by simp) (by simp)
    have hparent := keepsJobs_createFlowParent hr
    obtain ⟨hchildren, hids⟩ := addFlowChildren_keeps a P a.children
      (onQueue (Function.update S a.queue s) a.queue (createFlowParent · P a.parent)) []
    have hcounts := countsIds_createFlowParent h hr
    have hkeys : (fun q => (onQueue (Function.update S a.queue s) a.queue
          (createFlowParent · P a.parent) q).idKey) =
        Function.update (fun q => (S q).idKey) a.queue
          (idKeyAfter (S a.queue).idKey a.parent.customId) := by
      funext q
      by_cases hq : q = a.queue
      · subst hq; simpa [onQueue] using hid
      · simp [onQueue, hq]
    have hok := addFlowChildren_allocates a P a.children _ [] hcounts (by rw [hkeys]; exact hfit.2)
    split
    · rename_i T Q ids heq
      rw [heq] at hchildren hids hok
      refine ⟨?_, ?_, ?_, ?_⟩
      · intro q K j hj
        rw [onQueue_foldl_saddDeps_jobs]
        exact hparent.trans hchildren q K j hj
      · rintro P' ids' ⟨⟩
        obtain ⟨rfl, _⟩ := hids _ _ rfl
        exact allocateFlowId_free (by rw [hr])
      · rintro P' ids' ⟨⟩ p hp
        obtain ⟨_, new, hnew, hfree⟩ := hids _ _ rfl
        rw [hnew, List.nil_append] at hp
        exact hparent.none (hfree p hp)
      · intros; simp
    · rename_i hne
      exact flowFresh_of_not_added (hparent.trans hchildren)
        (fun Q ids hQ => hne _ Q ids (Prod.ext rfl hQ)) fun _ _ => hok
  · obtain rfl : r = .duplicate := hdup
    exact flowFresh_of_not_added hkeeps (by simp [AddResult.toFlow]) (by simp [AddResult.toFlow])

/-! ## Runs -/

/-- What a call that adds jobs owes: fresh ids, an id for every job, and no other hash overwritten. A
debounced job is removed on purpose. -/
def IdsFresh (S : Sys) : AddCall → Prop
  | .addJob q a =>
    AddedFresh (S q) a.priority (addJob (S q) a).2 ∧
      ∀ K j, (S q).jobs K = some j → (addJob (S q) a).1.jobs K = some j
  | .dedup q a =>
    AddedFresh (S q) a.priority (dedup (S q) a).2 ∧
      ∀ K, (S q).jobs K ≠ none → dedupDecision (S q) a ≠ .replace K → SameContents (S q) (dedup (S q) a).1 K
  | .addFlow a => FlowFresh S a (addFlow S a)

/-- The automatic ids that a call takes fit, and it replaces no debounced job under its own id. Nothing
is asked of a call that is refused or skipped before it takes an id. -/
def IdsFit (S : Sys) : AddCall → Prop
  | .addJob q a => a.refused = false → a.customJobId = none → NextIdFits (S q).idKey
  | .dedup q a =>
    a.refused = false → dedupDecision (S q) a ≠ .skip →
      (a.customJobId = none → NextIdFits (S q).idKey) ∧
        ∀ J, dedupDecision (S q) a = .replace J → a.customJobId ≠ some J
  | .addFlow a => a.refused = false → FlowIdsFit (fun q => (S q).idKey) a.takes

def CountsAllIds (S : Sys) : Prop := ∀ q, CountsIds (S q)

theorem countsIds_run {S : Sys} (h : ∀ q J, (S q).jobs J = none) (calls : List AddCall) :
    CountsAllIds (Machine.run addStep S calls) := by
  have hstep (T : Sys) (c : AddCall) (hT : CountsAllIds T) : CountsAllIds (addStep T c) :=
    countsIds_addStep hT c
  refine Machine.invariant_all hstep calls ?_
  exact fun q k _ hexists => absurd (h q k.repr) hexists

theorem addJob_kept {s : Queue} {a : AddArgs} (h : AddedFresh s a.priority (addJob s a).2)
    {K : JobId} {j : Job} (hj : s.jobs K = some j) : (addJob s a).1.jobs K = some j := by
  rw [addJob_jobs_of_ne, hj]
  intro hK
  rw [h.fresh K hK] at hj
  cases hj

/-- After any adds, from any counters, a call whose ids fit takes fresh ones. -/
theorem addStep_ids_fresh {S : Sys} (h : ∀ q J, (S q).jobs J = none) (calls : List AddCall)
    {c : AddCall} (hfit : IdsFit (Machine.run addStep S calls) c) :
    IdsFresh (Machine.run addStep S calls) c := by
  have hcounts := countsIds_run h calls
  cases c with
  | addJob q a =>
    have hfresh := addJob_fresh (hcounts q) hfit
    exact ⟨hfresh, fun K j hj => addJob_kept hfresh hj⟩
  | dedup q a =>
    have hfresh := dedup_fresh (hcounts q) hfit
    exact ⟨hfresh, fun K hexists hold => dedup_contents (fun hK => hexists (hfresh.fresh K hK)) hold⟩
  | addFlow a => exact addFlow_fresh hcounts hfit

/-- An add without options, under a custom id or an automatic one. -/
def plainAdd (customJobId : Option JobId) : AddCall :=
  .addJob "q" { timestamp := 0, serverNow := 0, customJobId }

/-- A custom id counts as a number, and the next automatic id is the number after it. -/
theorem addStep_ids_fresh_after_custom :
    IdsFresh (Machine.run addStep emptySys [plainAdd none, plainAdd (some "41")]) (plainAdd none) :=
  addStep_ids_fresh (fun _ _ => rfl) _ fun _ _ => ⟨42, by decide, by decide, by decide⟩

/-- After the custom id `007` the counter cannot be incremented. After the custom id
`100000000000000` the next two automatic ids are both `1e+14`. -/
theorem addStep_ids_not_fresh :
    ¬ IdsFresh (Machine.run addStep emptySys [plainAdd (some "007")]) (plainAdd none) ∧
      ¬ IdsFresh
        (Machine.run addStep emptySys [plainAdd (some "100000000000000"), plainAdd none])
        (plainAdd none) := by
  constructor
  · intro h
    exact h.1.allocated (by decide) (by decide)
  · intro h
    have := h.1.fresh "1e+14" (by decide)
    revert this
    decide

end GlideMq
