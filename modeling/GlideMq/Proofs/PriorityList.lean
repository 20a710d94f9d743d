import GlideMq.Model.Calls
import GlideMq.Proofs.ClaimRuns
import GlideMq.Proofs.DedupRejects
import GlideMq.Proofs.FlowRuns
import GlideMq.Proofs.PromoteRounds

/-!
# The priority list

`promote` pushes the jobs of one call in the order of their priorities. Adds, promotions and changes of a
priority leave the order of the list as it is, as long as no promotion pushes a job behind one with a
larger number.
-/

namespace GlideMq

open Queue Redis

/-! ## What keeps a listed job -/

/-- A state that a job of the list may have. -/
def Settled (st : Option JobState) : Prop := st ≠ some .delayed ∧ st ≠ some .prioritized

/-- A job of the list exists, and it is not on its way there. -/
def Listed (s : Queue) (J : JobId) : Prop := s.jobs J ≠ none ∧ Settled (s.stateOf J)

/-- No priority has changed, and no job of the list was lost. -/
structure KeepsListed (s t : Queue) : Prop where
  priority : ∀ J, (t.job J).priority = (s.job J).priority
  lifo : ∀ J, (t.job J).lifo = (s.job J).lifo
  listed : ∀ J, Listed s J → Listed t J

section

variable {s t u : Queue}

theorem KeepsListed.refl (s : Queue) : KeepsListed s s := ⟨fun _ => rfl, fun _ => rfl, fun _ h => h⟩

theorem KeepsListed.trans (h : KeepsListed s t) (h' : KeepsListed t u) : KeepsListed s u :=
  ⟨fun J => (h'.priority J).trans (h.priority J), fun J => (h'.lifo J).trans (h.lifo J),
    fun J hJ => h'.listed J (h.listed J hJ)⟩

theorem KeepsListed.of_jobs (h : t.jobs = s.jobs) : KeepsListed s t := by
  refine ⟨fun J => ?_, fun J => ?_, fun J hJ => ?_⟩
  · unfold Queue.job
    rw [h]
  · unfold Queue.job
    rw [h]
  · unfold Listed Queue.stateOf at hJ ⊢
    rwa [h]

theorem settled_waiting : Settled (some .waiting) := ⟨nofun, nofun⟩

theorem settled_failed : Settled (some .failed) := ⟨nofun, nofun⟩

theorem GroupSteps.settled (h : GroupSteps s t) {J : JobId} (hs : Settled (s.stateOf J)) :
    Settled (t.stateOf J) := by
  refine h.keeps (I := fun u => Settled (u.stateOf J)) (fun u v hstep hu => ?_) hs
  rcases hstep.stateOf J with heq | ⟨-, hw⟩ | ⟨hf, -⟩
  · rwa [heq]
  · rw [hw]
    exact settled_waiting
  · rw [hf]
    exact settled_failed

theorem KeepsListed.of_frame (h : t.frame = s.frame)
    (hst : ∀ J, Settled (s.stateOf J) → Settled (t.stateOf J)) : KeepsListed s t := by
  refine ⟨fun J => frame_job Job.priority (fun _ => rfl) h J,
    fun J => frame_job Job.lifo (fun _ => rfl) h J, fun J hJ => ⟨?_, hst J hJ.2⟩⟩
  exact fun hn => hJ.1 ((frame_jobs_none h J).mp hn)

theorem keepsListed_closeHole (s : Queue) (J : JobId) (now serverNow : Int) :
    KeepsListed s (closeOrderingHoleAndPromote s J now serverNow) := by
  refine .of_frame (frame_closeOrderingHoleAndPromote s J now serverNow) fun K hK => ?_
  refine (closeOrderingHoleAndPromote_steps s J now serverNow).settled ?_
  rwa [closeOrderingHole_stateOf]

theorem settled_expireJob (s : Queue) (J K : JobId) (now serverNow : Int) (st : Option JobState)
    (k : Option GroupKey) (n : Option Nat) (g : Option GroupKey) (h : Settled (s.stateOf K)) :
    Settled ((expireJob s J now serverNow st k n g).stateOf K) := by
  unfold expireJob
  split
  · exact h
  simp only
  generalize hv : markOrderingDone _ J k n = v
  have hcore : v.core = (endFailed s J now "expired" now).core := by
    rw [← hv, core_markOrderingDone, core_advanceRepeatAfterComplete]
    rfl
  have hended : Settled (v.stateOf K) := by
    rw [stateOf_of_core hcore, stateOf_endFailed]
    split
    · exact settled_failed
    · exact h
  rw [stateOf_of_core (core_recordFailed _ _ _)]
  split
  · refine (releaseGroupSlotAndPromote_steps v J now serverNow g).settled ?_
    rwa [stateOf_afterRelease]
  · refine (closeOrderingHoleAndPromote_steps v J now serverNow).settled ?_
    rwa [closeOrderingHole_stateOf]

theorem keepsListed_checkExpired (s : Queue) (J : JobId) (now serverNow : Int) :
    KeepsListed s (checkExpired s J now serverNow).1 := by
  refine .of_frame (frame_checkExpired s J now serverNow) fun K hK => ?_
  rcases checkExpired_cases s J now serverNow with ⟨-, heq⟩ | ⟨-, heq⟩
  · rw [heq]
    exact hK
  · rw [heq]
    exact settled_expireJob s J K now serverNow _ _ _ _ hK

theorem keepsListed_setState (s : Queue) (J : JobId) {st : JobState} (hst : Settled (some st)) :
    KeepsListed s (s.setState J st) := by
  refine ⟨fun K => job_setState Job.priority (fun _ _ => rfl) s J K st,
    fun K => job_setState Job.lifo (fun _ _ => rfl) s J K st, fun K hK => ⟨?_, ?_⟩⟩
  · unfold setState
    rw [hset_jobs, Function.update_apply]
    split
    · exact nofun
    · exact hK.1
  · rw [stateOf_setState]
    split
    · exact hst
    · exact hK.2

end

/-! ## The order -/

structure ListInOrder (s : Queue) : Prop where
  sorted : s.priorityList.Pairwise fun A B => (s.job B).priority ≤ (s.job A).priority
  listed : ∀ J ∈ s.priorityList, Listed s J

theorem ListInOrder.of_sublist {s t : Queue} (h : ListInOrder s)
    (hsub : t.priorityList.Sublist s.priorityList)
    (hprio : ∀ J ∈ t.priorityList, (t.job J).priority = (s.job J).priority)
    (hlisted : ∀ J ∈ t.priorityList, Listed s J → Listed t J) : ListInOrder t := by
  refine ⟨?_, fun J hJ => hlisted J hJ (h.listed J (hsub.subset hJ))⟩
  refine (h.sorted.sublist hsub).imp_of_mem fun {A B} hA hB hle => ?_
  rwa [hprio A hA, hprio B hB]

theorem ListInOrder.keeps {s t : Queue} (h : ListInOrder s) (hk : KeepsListed s t)
    (hlist : t.priorityList = s.priorityList) : ListInOrder t :=
  h.of_sublist (hlist ▸ List.Sublist.refl _) (fun J _ => hk.priority J) fun J _ => hk.listed J

theorem ListInOrder.push {s : Queue} (h : ListInOrder s) {J : JobId} (hJ : Listed s J)
    (hle : ∀ K ∈ s.priorityList, (s.job K).priority ≤ (s.job J).priority) :
    ListInOrder (s.lpushPriority J) := by
  refine ⟨List.pairwise_cons.mpr ⟨hle, h.sorted⟩, fun K hK => ?_⟩
  rcases List.mem_cons.mp hK with rfl | hK
  · exact hJ
  · exact h.listed K hK

/-! ## Promotion -/

theorem promoteMember_list (s : Queue) (p now serverNow : Int) (m : String) :
    KeepsListed s (promoteMember p now serverNow s m) ∧
      ((promoteMember p now serverNow s m).priorityList = s.priorityList ∨
        0 < p ∧ (s.job (splitMember m).1).lifo = false ∧
          Listed (promoteMember p now serverNow s m) (splitMember m).1 ∧
          (promoteMember p now serverNow s m).priorityList = (splitMember m).1 :: s.priorityList) := by
  have hrem : KeepsListed s (s.zremScheduled m) := .of_jobs rfl
  have hkeeps := hrem.trans (keepsListed_checkExpired (s.zremScheduled m) (splitMember m).1 now serverNow)
  have hlist : (checkExpired (s.zremScheduled m) (splitMember m).1 now serverNow).1.priorityList =
      s.priorityList := by
    have hself (q : Queue) : q.frame.priorityList = q.priorityList := rfl
    rw [← hself, frame_checkExpired]
    rfl
  have hlifo := hkeeps.lifo (splitMember m).1
  unfold promoteMember
  simp only
  split
  · rename_i u heq
    rw [heq] at hkeeps hlist
    exact ⟨hkeeps, Or.inl hlist⟩
  · rename_i u heq
    rw [heq] at hkeeps hlist hlifo
    simp only at hkeeps hlist hlifo
    have hpushed (v : Queue) (hv : v.jobs = u.jobs) :
        KeepsListed s (v.setState (splitMember m).1 .waiting) :=
      (hkeeps.trans (.of_jobs hv)).trans (keepsListed_setState v _ settled_waiting)
    have hlisted (v : Queue) : Listed (v.setState (splitMember m).1 .waiting) (splitMember m).1 := by
      refine ⟨?_, ?_⟩
      · unfold setState
        rw [hset_jobs, Function.update_self]
        exact nofun
      · rw [stateOf_setState, if_pos rfl]
        exact settled_waiting
    split
    · exact ⟨hpushed _ rfl, Or.inl hlist⟩
    · rename_i hnot
      split
      · rename_i hp
        refine ⟨hpushed _ rfl, Or.inr ⟨hp, ?_, hlisted _, congrArg _ hlist⟩⟩
        rw [← hlifo]
        simpa using hnot
      · split
        · exact ⟨hpushed _ rfl, Or.inl hlist⟩
        · exact ⟨hpushed _ rfl, Or.inl hlist⟩

/-- Each due job of a priority from 1 on has that priority, and no job in the list has a larger
number. LIFO jobs go to their own list. -/
def PromotesInOrder (s : Queue) (now : Int) : Prop :=
  ∀ p m, DueIn s now p m → 0 < p → (s.job (splitMember m).1).lifo = false →
    ((s.job (splitMember m).1).priority : Int) = p ∧
      ∀ K ∈ s.priorityList, ((s.job K).priority : Int) ≤ p

/-- The list during a call of `promote`: in front of the old jobs, new ones of at most the
priority that is being served. -/
structure Promoting (s t : Queue) (p : Int) : Prop where
  keeps : KeepsListed s t
  order : ListInOrder t
  front : ∃ new, t.priorityList = new ++ s.priorityList ∧ ∀ K ∈ new, ((s.job K).priority : Int) ≤ p

theorem Promoting.step {s t : Queue} {now serverNow p p' : Int} {m : String}
    (hs : PromotesInOrder s now) (h : Promoting s t p) (hp : p ≤ p') (hdue : DueIn s now p' m) :
    Promoting s (promoteMember p' now serverNow t m) p' := by
  obtain ⟨new, hlist, hnew⟩ := h.front
  obtain ⟨hkeeps, hcases⟩ := promoteMember_list t p' now serverNow m
  have hall := h.keeps.trans hkeeps
  have hold (K : JobId) (hK : K ∈ new) : ((s.job K).priority : Int) ≤ p' := (hnew K hK).trans hp
  rcases hcases with hsame | ⟨hpos, hlifo, hlisted, hpush⟩
  · exact ⟨hall, h.order.keeps hkeeps hsame, new, hsame.trans hlist, hold⟩
  · obtain ⟨hprio, hle⟩ := hs p' m hdue hpos ((h.keeps.lifo _).symm.trans hlifo)
    refine ⟨hall, ⟨?_, ?_⟩, (splitMember m).1 :: new, ?_, ?_⟩
    · rw [hpush, List.pairwise_cons]
      refine ⟨fun K hK => ?_, (h.order.keeps (t := { promoteMember p' now serverNow t m with
        priorityList := t.priorityList }) ⟨hkeeps.priority, hkeeps.lifo, hkeeps.listed⟩ rfl).sorted⟩
      rw [hall.priority, hall.priority]
      rw [hlist, List.mem_append] at hK
      rcases hK with hK | hK
      · have := hold K hK
        omega
      · have := hle K hK
        omega
    · intro K hK
      rw [hpush] at hK
      rcases List.mem_cons.mp hK with rfl | hK
      · exact hlisted
      · exact hkeeps.listed K (h.order.listed K hK)
    · rw [hpush, hlist]
      rfl
    · intro K hK
      rcases List.mem_cons.mp hK with rfl | hK
      · exact hprio.le
      · exact hold K hK

/-- A call of `promote` pushes new jobs in order. -/
theorem promote_inOrder {s : Queue} {now : Int} (h : ListInOrder s) (serverNow : Int)
    (hs : PromotesInOrder s now) :
    ListInOrder (promote s now serverNow).1 ∧
      ∃ new, (promote s now serverNow).1.priorityList = new ++ s.priorityList := by
  obtain ⟨p, hp⟩ := promote_rule s now serverNow (I := Promoting s)
    (fun t p p' m ht hle hdue => ht.step hs hle hdue)
    ⟨.refl s, h, [], rfl, by simp⟩
  obtain ⟨new, hlist, -⟩ := hp.front
  exact ⟨hp.order, new, hlist⟩

/-! ## Adds -/

/-- An automatic id is not the id of a job of the list. -/
def AddsUnlisted (s : Queue) (customJobId : Option JobId) : Prop :=
  customJobId = none → ∀ t J, incrId s = some (t, J) → J ∉ s.priorityList

theorem ListInOrder.of_others {s t : Queue} (h : ListInOrder s) (hlist : t.priorityList = s.priorityList)
    (hother : ∀ J ∈ s.priorityList, t.jobs J = s.jobs J) : ListInOrder t := by
  refine h.of_sublist (hlist ▸ List.Sublist.refl _) (fun J hJ => ?_) fun J hJ hlisted => ?_
  · unfold Queue.job
    rw [hother J (hlist ▸ hJ)]
  · unfold Listed Queue.stateOf at hlisted ⊢
    rwa [hother J (hlist ▸ hJ)]

theorem allocateId_unlisted {s t : Queue} {c : Option JobId} {J : JobId} (h : ListInOrder s)
    (hauto : AddsUnlisted s c) (halloc : allocateId s c = (t, .added J)) : J ∉ s.priorityList := by
  unfold allocateId at halloc
  cases c with
  | some K =>
    by_cases hfree : s.jobs K = none
    · simp only [if_pos hfree, Prod.mk.injEq, AddResult.added.injEq] at halloc
      obtain ⟨-, rfl⟩ := halloc
      exact fun hmem => (h.listed K hmem).1 hfree
    · simp [hfree] at halloc
  | none =>
    cases hincr : incrId s with
    | none => simp [hincr] at halloc
    | some r =>
      simp only [hincr, Prod.mk.injEq, AddResult.added.injEq] at halloc
      obtain ⟨-, rfl⟩ := halloc
      exact hauto rfl r.1 r.2 hincr

@[simp] theorem allocateId_priorityList (s : Queue) (c : Option JobId) :
    (allocateId s c).1.priorityList = s.priorityList := by
  unfold allocateId advanceIdCounter incrId
  cases c with
  | some K =>
    simp only
    repeat' split
    all_goals rfl
  | none => cases Lua.incr s.idKey <;> rfl

@[simp] theorem enqueueNew_priorityList (s : Queue) (J : JobId) (t d : Int) (p : Nat) (l : Bool) :
    (enqueueNew s J t d p l).priorityList = s.priorityList := by
  unfold enqueueNew
  repeat' split
  all_goals rfl

@[simp] theorem createJob_priorityList (s : Queue) (J : JobId) (a : AddArgs) (ids : List JobId) :
    (createJob s J a ids).priorityList = s.priorityList := by
  unfold createJob registerInDeps issueSeq upsertGroupConfig
  cases a.orderingKey with
  | none =>
    simp only
    repeat' split
    all_goals rfl
  | some k =>
    simp only
    repeat' split
    all_goals rfl

theorem addJob_inOrder {s : Queue} (h : ListInOrder s) {a : AddArgs}
    (hauto : a.refused = false → AddsUnlisted s a.customJobId) :
    ListInOrder (addJob s a).1 ∧ (addJob s a).1.priorityList = s.priorityList := by
  have hlist : (addJob s a).1.priorityList = s.priorityList := by
    have hids := allocateId_priorityList s a.customJobId
    unfold addJob
    split
    · rfl
    split
    · rfl
    split
    · rename_i heq
      rw [heq] at hids
      simpa using hids
    · exact hids
  refine ⟨h.of_others hlist fun K hK => ?_, hlist⟩
  refine addJob_jobs_of_ne fun hadded => ?_
  unfold addJob at hadded
  split at hadded
  · cases hadded
  split at hadded
  · cases hadded
  rename_i hpriority hcost
  replace hauto := hauto (by simpa [AddArgs.refused, hcost] using hpriority)
  split at hadded
  · rename_i t J heq
    simp only [AddResult.added.injEq] at hadded
    exact allocateId_unlisted h hauto heq (hadded ▸ hK)
  · rename_i hno
    rcases hr : allocateId s a.customJobId with ⟨t, r⟩
    rw [hr] at hadded
    exact hno t K (by rw [hr, ← hadded])

/-! ## Debounced jobs -/

theorem Releases.settled {J : JobId} (h : Releases s t) (hs : Settled (s.stateOf J)) :
    Settled (t.stateOf J) := by
  rcases h J with heq | ⟨-, hw⟩
  · rwa [heq]
  · rw [hw]
    exact settled_waiting

theorem keepsListed_resolveRemovedChildParents (s : Queue) (J : JobId) (edges : ChildParents) :
    KeepsListed s (resolveRemovedChildParents s J edges).1 := by
  have hframe := parentFrame_resolveRemovedChildParents s J edges
  refine ⟨fun K => parentFrame_job Job.priority (fun _ => rfl) hframe K,
    fun K => parentFrame_job Job.lifo (fun _ => rfl) hframe K, fun K hK => ⟨?_, ?_⟩⟩
  · exact fun hn => hK.1 ((parentFrame_jobs_none hframe K).mp hn)
  · exact (resolveRemovedChildParents_releases s J edges).settled hK.2

@[simp] theorem resolveRemovedChildParents_priorityList (s : Queue) (J : JobId) (edges : ChildParents) :
    (resolveRemovedChildParents s J edges).1.priorityList = s.priorityList := by
  have hself (q : Queue) : q.parentFrame.priorityList = q.priorityList := rfl
  rw [← hself, parentFrame_resolveRemovedChildParents]
  rfl

theorem createReplacement_inOrder {s : Queue} (h : ListInOrder s) {J : JobId} (hJ : J ∉ s.priorityList)
    (old : JobId) (edges : ChildParents) (a : AddArgs) :
    ListInOrder (createReplacement s J old edges a) ∧
      (createReplacement s J old edges a).priorityList = s.priorityList := by
  have hresolve (t : Queue) (e : ChildParents) (hlist : t.priorityList = s.priorityList)
      (hjobs : ∀ K ∈ s.priorityList, t.jobs K = s.jobs K) :
      ListInOrder (resolveRemovedChildParents t old e).1 ∧
        (resolveRemovedChildParents t old e).1.priorityList = s.priorityList := by
    refine ⟨(h.of_others hlist hjobs).keeps (keepsListed_resolveRemovedChildParents t old e) ?_, ?_⟩
    · exact resolveRemovedChildParents_priorityList t old e
    · rw [resolveRemovedChildParents_priorityList, hlist]
  have hcreated (ids : List JobId) (K : JobId) (hK : K ∈ s.priorityList) :
      (createJob s J a ids).jobs K = s.jobs K := by
    rw [createJob_jobs, Function.update_of_ne]
    rintro rfl
    exact hJ hK
  have hparents (t : Queue) (ps : List DepMember) :
      (ps.foldl (fun s p => s.saddParents J p) t).priorityList = t.priorityList := by
    induction ps generalizing t with
    | nil => rfl
    | cons p ps ih => exact ih (t.saddParents J p)
  unfold createReplacement
  simp only
  split
  · refine hresolve _ _ ?_ fun K hK => ?_
    · rw [hparents, createJob_priorityList]
    · rw [foldl_saddParents_jobs]
      exact hcreated _ K hK
  · exact hresolve _ _ (createJob_priorityList _ _ _ _) fun K hK => hcreated _ K hK

theorem dedupAdd_inOrder {s : Queue} (h : ListInOrder s) {a : DedupArgs}
    (hauto : AddsUnlisted s a.customJobId) (replaced : Option (JobId × ChildParents)) :
    ListInOrder (dedupAdd s a replaced).1 ∧ (dedupAdd s a replaced).1.priorityList = s.priorityList := by
  have hids := allocateId_priorityList s a.customJobId
  have hjobs := (allocateId_allocates s a.customJobId).jobs
  unfold dedupAdd
  rcases hr : allocateId s a.customJobId with ⟨t, r⟩
  rw [hr] at hids hjobs
  simp only at hids hjobs
  have ht : ListInOrder t := h.of_others hids fun K _ => congrFun hjobs K
  cases r with
  | added J =>
    have hJ : J ∉ s.priorityList := allocateId_unlisted h hauto hr
    have hentry (v : Queue) (hv : ListInOrder v ∧ v.priorityList = s.priorityList) :
        ListInOrder ((enqueueNew v J a.timestamp a.delay a.priority a.lifo).setDedup a.dedupId J
            a.timestamp) ∧
          ((enqueueNew v J a.timestamp a.delay a.priority a.lifo).setDedup a.dedupId J
            a.timestamp).priorityList = s.priorityList := by
      have hlist : ((enqueueNew v J a.timestamp a.delay a.priority a.lifo).setDedup a.dedupId J
          a.timestamp).priorityList = v.priorityList := enqueueNew_priorityList v J _ _ _ _
      refine ⟨hv.1.of_others hlist fun K _ => ?_, hlist.trans hv.2⟩
      exact congrFun (enqueueNew_jobs v J _ _ _ _) K
    cases replaced with
    | none =>
      refine hentry _ ⟨ht.of_others (createJob_priorityList _ _ _ _) fun K hK => ?_, ?_⟩
      · rw [createJob_jobs, Function.update_of_ne]
        rintro rfl
        exact hJ (hids ▸ hK)
      · rw [createJob_priorityList, hids]
    | some r =>
      obtain ⟨hord, hlist⟩ := createReplacement_inOrder ht (hids ▸ hJ) r.1 r.2 a.toAddArgs
      exact hentry _ ⟨hord, hlist.trans hids⟩
  | duplicate =>
    cases replaced with
    | none => exact ⟨ht, hids⟩
    | some r =>
      have hlist := resolveRemovedChildParents_priorityList t r.1 r.2
      exact ⟨ht.keeps (keepsListed_resolveRemovedChildParents t r.1 r.2) hlist, hlist.trans hids⟩
  | _ => exact ⟨ht, hids⟩

theorem removeReplaced_inOrder {s : Queue} (h : ListInOrder s) {J : JobId} (hJ : J ∉ s.priorityList)
    (now serverNow : Int) :
    ListInOrder (removeReplaced s J now serverNow).1 ∧
      (removeReplaced s J now serverNow).1.priorityList = s.priorityList := by
  unfold removeReplaced
  simp only
  generalize hv : (if (s.job J).groupKey.isSome ∧ 0 < (s.job J).orderingSeq then _ else _) = v
  have hmark : KeepsListed s (markOrderingDone (s.zremScheduled J) J none none) :=
    .of_jobs (markOrderingDone_jobs _ _ _ _)
  have hkeeps : KeepsListed s v := by
    rw [← hv]
    split
    · exact hmark.trans (keepsListed_closeHole _ J now serverNow)
    · exact hmark
  have hlist : v.priorityList = s.priorityList := by
    have hself (q : Queue) : q.frame.priorityList = q.priorityList := rfl
    rw [← hv, ← hself]
    split
    · rw [frame_closeOrderingHoleAndPromote, frame_markOrderingDone]
      rfl
    · rw [frame_markOrderingDone]
      rfl
  refine ⟨(h.keeps hkeeps hlist).of_others rfl fun K hK => ?_, hlist⟩
  rw [hlist] at hK
  have hne : K ≠ J := by
    rintro rfl
    exact hJ hK
  simp [Function.update_of_ne hne]

theorem dedup_inOrder {s : Queue} (h : ListInOrder s) {a : DedupArgs}
    (hauto : a.refused = false → dedupDecision s a ≠ .skip → AddsUnlisted s a.customJobId) :
    ListInOrder (dedup s a).1 ∧ (dedup s a).1.priorityList = s.priorityList := by
  unfold dedup
  split
  · exact ⟨h, rfl⟩
  split
  · exact ⟨h, rfl⟩
  rename_i hpriority hcost
  replace hauto := hauto (by simpa [AddArgs.refused, hcost] using hpriority)
  cases hdecision : dedupDecision s a with
  | skip => exact ⟨h, rfl⟩
  | add => exact dedupAdd_inOrder h (hauto (by simp [hdecision])) none
  | replace J =>
    replace hauto := hauto (by simp [hdecision])
    have hwaits := (dedupDecision_eq_replace hdecision).waits
    have hJ : J ∉ s.priorityList := by
      intro hmem
      obtain ⟨-, hdelayed, hprioritized⟩ := h.listed J hmem
      rcases hwaits with hst | hst
      · exact hdelayed hst
      · exact hprioritized hst
    obtain ⟨hord, hlist⟩ := removeReplaced_inOrder h hJ a.timestamp a.serverNow
    have hid := removeReplaced_idKey s J a.timestamp a.serverNow
    have hauto' : AddsUnlisted (removeReplaced s J a.timestamp a.serverNow).1 a.customJobId := by
      intro hc t K hincr
      rw [hlist]
      obtain ⟨n, hn, -, hK⟩ := incrId_eq_some hincr
      rw [hid] at hn
      refine hauto hc (s.setIdKey n.repr) K ?_
      unfold incrId
      rw [hn, hK]
      rfl
    obtain ⟨hord', hlist'⟩ := dedupAdd_inOrder hord hauto' (some (J, _))
    exact ⟨hord', hlist'.trans hlist⟩

/-! ## Flows -/

/-- No hash that was there has changed, and the lists are as they were. -/
structure KeepsLists (S T : Sys) : Prop where
  jobs : KeepsJobs S T
  list : ∀ q, (T q).priorityList = (S q).priorityList

section

variable {S T U : Sys} {q : QueueName}

theorem KeepsLists.trans (h : KeepsLists S T) (h' : KeepsLists T U) : KeepsLists S U :=
  ⟨h.jobs.trans h'.jobs, fun q => (h'.list q).trans (h.list q)⟩

theorem KeepsLists.of_jobs (hjobs : ∀ q, (T q).jobs = (S q).jobs)
    (hlist : ∀ q, (T q).priorityList = (S q).priorityList) : KeepsLists S T := by
  refine ⟨fun q K j hj => ?_, hlist⟩
  rw [hjobs]
  exact hj

theorem KeepsLists.inOrder (h : KeepsLists S T) (hs : ListInOrder (S q)) : ListInOrder (T q) := by
  refine hs.of_others (h.list q) fun K hK => ?_
  obtain ⟨j, hj⟩ := Option.ne_none_iff_exists'.mp (hs.listed K hK).1
  rw [hj]
  exact h.jobs q K j hj

theorem list_update {t : Queue} (ht : t.priorityList = (S q).priorityList) (p : QueueName) :
    (Function.update S q t p).priorityList = (S p).priorityList := by
  by_cases hp : p = q
  · subst hp
    rw [Function.update_self]
    exact ht
  · rw [Function.update_of_ne hp]

theorem allocateFlowId_priorityList (s : Queue) (c : Option JobId) :
    (allocateFlowId s c).1.priorityList = s.priorityList :=
  key_of_life Queue.priorityList (fun _ => rfl) (life_allocateFlowId s c)

theorem create_priorityList (s : Queue) (J : JobId) (n : NewJob) : (s.create J n).priorityList = s.priorityList := by
  unfold Queue.create issueSeq
  cases n.key <;> rfl

theorem afterChild_keepsLists {c : FlowChild} {s : Queue} {J : JobId}
    (hr : allocateFlowId (S c.queue) c.customId = (s, .added J)) (a : FlowArgs) (P : JobId) :
    KeepsLists S (afterChild a P S c s J) := by
  refine ⟨keepsJobs_afterChild hr a P, fun q => ?_⟩
  have hlist := allocateFlowId_priorityList (S c.queue) c.customId
  rw [hr] at hlist
  have hchild : (createFlowChild s J c a.queue P a.parent.timestamp a.parent.serverNow).priorityList =
      (S c.queue).priorityList := by
    rw [createFlowChild_eq, enqueueNew_priorityList, create_priorityList]
    exact hlist
  unfold afterChild onQueue
  exact Eq.trans (list_update (by rfl) q) (list_update hchild q)

theorem addFlowChildren_keepsLists (a : FlowArgs) (P : JobId) (cs : List FlowChild) (S : Sys) (ids : List JobId) :
    KeepsLists S (addFlowChildren a P cs S ids).1 := by
  refine ⟨(addFlowChildren_keeps a P cs S ids).1, fun q => ?_⟩
  induction cs generalizing S ids with
  | nil => rfl
  | cons c cs ih =>
    have hlist := list_update (allocateFlowId_priorityList (S c.queue) c.customId) q
    rw [addFlowChildren]
    rcases hr : allocateFlowId (S c.queue) c.customId with ⟨s, r⟩
    rw [hr] at hlist
    cases r with
    | added J => exact (ih _ _).trans ((afterChild_keepsLists hr a P).list q)
    | _ => exact hlist

theorem addFlow_keepsLists (S : Sys) (a : FlowArgs) : KeepsLists S (addFlow S a).1 := by
  -- A flow only takes ids that are free, and none of its jobs goes to a priority list.
  have hself : KeepsLists S S := .of_jobs (fun _ => rfl) fun _ => rfl
  unfold addFlow
  split
  · exact hself
  split
  · exact hself
  split
  · exact hself
  have hjobs := keepsJobs_allocateFlowId S a.queue a.parent.customId
  have hlist := allocateFlowId_priorityList (S a.queue) a.parent.customId
  rcases hr : allocateFlowId (S a.queue) a.parent.customId with ⟨s, r⟩
  rw [hr] at hjobs hlist
  have hids : KeepsLists S (Function.update S a.queue s) := ⟨hjobs, list_update hlist⟩
  cases r with
  | added P =>
    simp only
    split
    · exact hids
    have hparent : KeepsLists S (onQueue (Function.update S a.queue s) a.queue (createFlowParent · P a.parent)) := by
      refine ⟨keepsJobs_createFlowParent hr, fun q => ?_⟩
      refine (list_update ?_ q).trans (list_update hlist q)
      change (createFlowParent _ P a.parent).priorityList = _
      rw [createFlowParent_eq, create_priorityList]
    have hchildren := hparent.trans (addFlowChildren_keepsLists a P a.children _ [])
    split
    · rename_i T Q ids heq
      rw [heq] at hchildren
      refine hchildren.trans (.of_jobs (fun q => ?_) fun q => ?_)
      · funext K
        exact onQueue_foldl_saddDeps_jobs T a.queue q Q a.extraDeps K
      · exact list_update (key_of_life Queue.priorityList (fun _ => rfl) (life_foldl_saddDeps _ _ _)) q
    · exact hchildren
  | _ => exact hids

end

/-! ## Changes of priority -/

theorem changePriority_inOrder {s : Queue} (h : ListInOrder s) (J : JobId) (newPriority : Nat)
    (group : Group) :
    ListInOrder (changePriority s J newPriority group).1 ∧
      (changePriority s J newPriority group).1.priorityList.Sublist s.priorityList := by
  -- every write is of `J`, and `J` is out of the list by then
  have hwrite (t : Queue) (hsub : t.priorityList.Sublist s.priorityList) (hJ : J ∉ t.priorityList)
      (hother : ∀ K, K ≠ J → t.jobs K = s.jobs K) :
      ListInOrder t ∧ t.priorityList.Sublist s.priorityList := by
    have hne (K : JobId) (hK : K ∈ t.priorityList) : K ≠ J := by
      rintro rfl
      exact hJ hK
    refine ⟨h.of_sublist hsub (fun K hK => ?_) fun K hK hlisted => ?_, hsub⟩
    · unfold Queue.job
      rw [hother K (hne K hK)]
    · unfold Listed Queue.stateOf at hlisted ⊢
      rwa [hother K (hne K hK)]
  have hself : ListInOrder s ∧ s.priorityList.Sublist s.priorityList := ⟨h, List.Sublist.refl _⟩
  have hlrem : (s.lremPriority J).priorityList.Sublist s.priorityList := List.filter_sublist
  have hgone : J ∉ (s.lremPriority J).priorityList := by simp [lremPriority]
  unfold changePriority
  split
  · exact hself
  split
  · exact hself
  simp only
  split
  · rename_i hwaiting
    split
    · split
      · split
        · exact hwrite _ hlrem hgone fun K hK => by simp [Queue.setPriority, Function.update_of_ne hK]
        · exact hwrite _ hlrem hgone fun K hK => by simp [Queue.setPriority, Function.update_of_ne hK]
      · rename_i hnot
        split
        · exact hself
        · exact hwrite _ (List.Sublist.refl _) hnot fun K hK => by
            simp [Queue.setPriority, Function.update_of_ne hK]
    · cases hdetach : detachWaitingJob s group J with
      | none => exact hself
      | some t =>
        have hout : t.priorityList.Sublist s.priorityList ∧ J ∉ t.priorityList ∧ t.jobs = s.jobs := by
          unfold detachWaitingJob at hdetach
          split at hdetach
          · obtain rfl := Option.some.inj hdetach
            exact ⟨hlrem, hgone, rfl⟩
          · rename_i hnot
            split at hdetach
            · obtain rfl := Option.some.inj hdetach
              exact ⟨List.Sublist.refl _, hnot, rfl⟩
            · obtain ⟨e, -, rfl⟩ := Option.map_eq_some_iff.mp hdetach
              exact ⟨List.Sublist.refl _, hnot, rfl⟩
        refine hwrite _ hout.1 hout.2.1 fun K hK => ?_
        simp [Queue.setPriority, setState, Function.update_of_ne hK, hout.2.2]
  · rename_i hprioritized
    have hnot : J ∉ s.priorityList := fun hmem => (h.listed J hmem).2.2 hprioritized
    split
    · exact hwrite _ (List.Sublist.refl _) hnot fun K hK => by
        simp [Queue.setPriority, setState, Function.update_of_ne hK]
    · exact hwrite _ (List.Sublist.refl _) hnot fun K hK => by
        simp [Queue.setPriority, Function.update_of_ne hK]
  · rename_i hdelayed
    have hnot : J ∉ s.priorityList := fun hmem => (h.listed J hmem).2.1 hdelayed
    split
    · exact hself
    · exact hwrite _ (List.Sublist.refl _) hnot fun K hK => by
        simp [Queue.setPriority, Function.update_of_ne hK]
  · exact hself

end GlideMq
