import GlideMq.Proofs.Scheduled

/-!
# Due times

A scheduled score is a priority's band and a due time in it. As long as each due time that a call
gives fits into a band, `promote` takes no member before its due time and, below its cap, leaves no
due member behind.
-/

namespace GlideMq

open Queue Redis

/-! ## What a call gives -/

/-- The due time of a new job. One with a priority alone may go at once. -/
def newDue (timestamp delay : Int) (priority : Nat) : Option Int :=
  if 0 < delay then some (timestamp + delay) else if 0 < priority then some 0 else none

/-- The due time that a call gives to a member. A change of priority keeps the one of a delayed
job. -/
def dueGiven (s : Queue) (m : String) : Call → Option Int
  | .addJob a => if (addJob s a).2 = .added m then newDue a.timestamp a.delay a.priority else none
  | .dedup a => if (dedup s a).2 = .added m then newDue a.timestamp a.delay a.priority else none
  | .fail a requeueOnly =>
    if m = a.jobId ∧ (fail s a requeueOnly).2 = .retrying then some (a.timestamp + a.backoffDelay)
    else none
  | .failAndFetchNext a consumer =>
    if m = a.jobId ∧ (failAndFetchNext s a consumer).2.1 = .retrying then
      some (a.timestamp + a.backoffDelay)
    else none
  | .changePriority J newPriority group =>
    if m = J ∧ (changePriority s J newPriority group).2 = .ok ∧ newPriority ≠ 0 ∧
        s.stateOf J ≠ some .delayed then some 0
    else none
  | .changeDelay J newDelay now group =>
    if m = J ∧ (changeDelay s J newDelay now group).2 = .ok then
      some (if newDelay = 0 then 0 else now + newDelay)
    else none
  | .moveActiveToDelayed a delayedUntil =>
    if m = a.jobId ∧ (moveActiveToDelayed s a delayedUntil).2 = .ok then
      some (max delayedUntil a.now)
    else none
  | .retryJob J timestamp =>
    if m = J ∧ (retryJob s J timestamp).2 = .ok then some timestamp else none
  | .retryJobs count timestamp =>
    if m ∈ s.failed ∧ m ∉ (retryJobs s count timestamp).1.failed ∧ s.jobs m ≠ none then
      some timestamp
    else none
  | _ => none

/-- After the call, each member has the due time that the call gave it, or the one it had. -/
def GivesDue (s t : Queue) (given : String → Option Int) : Prop :=
  ∀ m x, t.scheduled.score m = some x →
    match given m with
    | some g => ∃ p : Int, 0 ≤ p ∧ x = p * priorityShift + g
    | none => ∃ y, s.scheduled.score m = some y ∧ x % priorityShift = y % priorityShift ∧ 0 ≤ x

def NonnegScores (s : Queue) : Prop := ∀ m x, s.scheduled.score m = some x → 0 ≤ x

section

variable {s t u : Queue} {given : String → Option Int} {J : JobId}

theorem GivesDue.of_within (hs : NonnegScores s) (h : ScheduledWithin s t)
    (hgiven : ∀ m, given m = none) : GivesDue s t given := by
  intro m x hx
  rw [hgiven]
  exact ⟨x, h m x hx, rfl, hs m x (h m x hx)⟩

theorem GivesDue.of_add (hs : NonnegScores s) (h : ScheduledWithin s u) {p g : Int} (hp : 0 ≤ p)
    (ht : t.scheduled = u.scheduled.add J (p * priorityShift + g)) (hJ : given J = some g)
    (hothers : ∀ m, m ≠ J → given m = none) : GivesDue s t given := by
  intro m x hx
  rw [ht, SortedSet.score_add] at hx
  split at hx
  · rename_i hm
    cases hx
    rw [hm, hJ]
    exact ⟨p, hp, rfl⟩
  · rename_i hm
    rw [hothers m hm]
    exact ⟨x, h m x hx, rfl, hs m x (h m x hx)⟩

/-! ## Adds -/

theorem createJob_scheduled (s : Queue) (J : JobId) (a : AddArgs) (ids : List JobId) :
    (createJob s J a ids).scheduled = s.scheduled := by
  refine (scheduled_of_life (life_createJob s J a ids)).trans ?_
  unfold Queue.create issueSeq
  cases (a.newJob ids).key <;> rfl

theorem createReplacement_scheduled (s : Queue) (J old : JobId) (edges : ChildParents)
    (a : AddArgs) : (createReplacement s J old edges a).scheduled = s.scheduled := by
  have hresolve (q : Queue) (edges : ChildParents) :
      (resolveRemovedChildParents q old edges).1.scheduled = q.scheduled :=
    scheduled_of_parentFrame (parentFrame_resolveRemovedChildParents q old edges)
  unfold createReplacement
  simp only
  split
  · rw [hresolve, scheduled_of_life (life_foldl_saddParents _ _ _), createJob_scheduled]
  · rw [hresolve, createJob_scheduled]

theorem enqueueNew_due (hs : NonnegScores s) (h : ScheduledWithin s u) (timestamp delay : Int)
    (priority : Nat) (lifo : Bool)
    (ht : t.scheduled = (enqueueNew u J timestamp delay priority lifo).scheduled)
    (hJ : given J = newDue timestamp delay priority) (hothers : ∀ m, m ≠ J → given m = none) :
    GivesDue s t given := by
  unfold enqueueNew at ht
  unfold newDue at hJ
  split at ht
  · rename_i hdelay
    rw [if_pos hdelay] at hJ
    exact .of_add hs h (Int.natCast_nonneg priority) ht hJ hothers
  · rename_i hdelay
    rw [if_neg hdelay] at hJ
    split at ht
    · rename_i hpriority
      rw [if_pos hpriority] at hJ
      refine .of_add hs h (Int.natCast_nonneg priority) ?_ hJ hothers
      rw [ht, Int.add_zero]
      rfl
    · rename_i hpriority
      rw [if_neg hpriority] at hJ
      refine .of_within hs (h.trans (.of_eq ?_)) fun m => ?_
      · rw [ht]
        split <;> rfl
      · by_cases hm : m = J
        · rw [hm, hJ]
        · exact hothers m hm

theorem addJob_due (hs : NonnegScores s) (a : AddArgs) :
    GivesDue s (addJob s a).1 fun m => dueGiven s m (.addJob a) := by
  have hnone {r : AddResult} (hr : (addJob s a).2 = r) (hadd : ∀ m, r ≠ .added m) (m : String) :
      dueGiven s m (.addJob a) = none := by
    refine if_neg ?_
    rw [hr]
    exact hadd m
  by_cases hpriority : maxPriority < a.priority
  · have hres : addJob s a = (s, .error) := by simp [addJob, hpriority]
    exact .of_within hs (.of_eq (by rw [hres])) (hnone (by rw [hres]) (by simp))
  by_cases hcost : costExceeds a.orderingKey.isSome a.group.tbCapacity a.jobCost
  · have hres : addJob s a = (s, .costExceedsCapacity) := by simp [addJob, hpriority, hcost]
    exact .of_within hs (.of_eq (by rw [hres])) (hnone (by rw [hres]) (by simp))
  have halloc := scheduled_of_life (life_allocateId s a.customJobId)
  rcases hr : allocateId s a.customJobId with ⟨t, r⟩
  rw [hr] at halloc
  simp only at halloc
  cases r with
  | added J =>
    have hres : addJob s a =
        (enqueueNew (createJob t J a []) J a.timestamp a.delay a.priority a.lifo, .added J) := by
      simp [addJob, hpriority, hcost, hr]
    refine enqueueNew_due hs (.of_eq ((createJob_scheduled t J a []).trans halloc)) a.timestamp
      a.delay a.priority a.lifo (by rw [hres]) ?_ ?_
    · simp [dueGiven, hres]
    · intro m hm
      simp [dueGiven, hres, Ne.symm hm]
  | _ =>
    have hres : (addJob s a).1.scheduled = s.scheduled ∧ ∀ m, (addJob s a).2 ≠ .added m := by
      simp [addJob, hpriority, hcost, hr, halloc]
    exact .of_within hs (.of_eq hres.1) (hnone rfl hres.2)

theorem dedupAdd_due (hs : NonnegScores s) (hu : ScheduledWithin s u) {a : DedupArgs}
    {replaced : Option (JobId × ChildParents)} (hres : dedup s a = dedupAdd u a replaced) :
    GivesDue s (dedup s a).1 fun m => dueGiven s m (.dedup a) := by
  have halloc := scheduled_of_life (life_allocateId u a.customJobId)
  rcases hr : allocateId u a.customJobId with ⟨t, r⟩
  rw [hr] at halloc
  simp only at halloc
  have hnone (hadd : ∀ m, (dedup s a).2 ≠ .added m) (m : String) :
      dueGiven s m (.dedup a) = none := if_neg (hadd m)
  cases r with
  | added J =>
    have hadded : (dedup s a).2 = .added J := by simp [hres, dedupAdd, hr]
    obtain ⟨v, hv, ht⟩ : ∃ v : Queue, v.scheduled = u.scheduled ∧ (dedup s a).1.scheduled =
        (enqueueNew v J a.timestamp a.delay a.priority a.lifo).scheduled := by
      rw [hres]
      unfold dedupAdd
      rw [hr]
      cases replaced with
      | none => exact ⟨_, (createJob_scheduled _ _ _ _).trans halloc, rfl⟩
      | some r => exact ⟨_, (createReplacement_scheduled _ _ _ _ _).trans halloc, rfl⟩
    refine enqueueNew_due hs (hu.trans (.of_eq hv)) a.timestamp a.delay a.priority a.lifo ht ?_ ?_
    · simp [dueGiven, hadded]
    · intro m hm
      simp [dueGiven, hadded, Ne.symm hm]
  | duplicate =>
    cases replaced with
    | none =>
      refine .of_within hs (hu.trans (.of_eq ?_)) (hnone ?_)
      · simp [hres, dedupAdd, hr, halloc]
      · simp [hres, dedupAdd, hr]
    | some r =>
      refine .of_within hs (hu.trans (.of_eq ?_)) (hnone ?_)
      · simp only [hres, dedupAdd, hr]
        rw [scheduled_of_parentFrame (parentFrame_resolveRemovedChildParents _ _ _), halloc]
      · simp [hres, dedupAdd, hr]
  | _ =>
    refine .of_within hs (hu.trans (.of_eq ?_)) (hnone ?_)
    · simp [hres, dedupAdd, hr, halloc]
    · simp [hres, dedupAdd, hr]

theorem dedup_due (hs : NonnegScores s) (a : DedupArgs) :
    GivesDue s (dedup s a).1 fun m => dueGiven s m (.dedup a) := by
  have hnone (t : Queue) (r : AddResult) (hres : dedup s a = (t, r)) (ht : t = s)
      (hadd : ∀ m, r ≠ .added m) : GivesDue s (dedup s a).1 fun m => dueGiven s m (.dedup a) := by
    refine .of_within hs (.of_eq (by rw [hres, ht])) fun m => ?_
    refine if_neg ?_
    rw [hres]
    exact hadd m
  by_cases hpriority : maxPriority < a.priority
  · exact hnone s .error (by simp [dedup, hpriority]) rfl (by simp)
  by_cases hcost : costExceeds a.orderingKey.isSome a.group.tbCapacity a.jobCost
  · exact hnone s .costExceedsCapacity (by simp [dedup, hpriority, hcost]) rfl (by simp)
  cases hdecision : dedupDecision s a with
  | skip => exact hnone s .skipped (by simp [dedup, hpriority, hcost, hdecision]) rfl (by simp)
  | add => exact dedupAdd_due hs (.of_eq rfl) (by simp [dedup, hpriority, hcost, hdecision]; rfl)
  | replace J =>
    obtain ⟨v, hv, heq⟩ := frame_removeReplaced s J a.timestamp a.serverNow
    have hremoved : (removeReplaced s J a.timestamp a.serverNow).1.scheduled = s.scheduled.rem J := by
      rw [heq]
      exact scheduled_of_frame hv
    exact dedupAdd_due hs (.rem hremoved) (by simp [dedup, hpriority, hcost, hdecision]; rfl)

/-! ## Failures -/

theorem settleListClaim_scheduled (s : Queue) (J : JobId) (e : Option Nat) :
    (settleListClaim s J e).scheduled = s.scheduled := by
  unfold settleListClaim decrListActive
  simp only
  repeat' split
  all_goals rfl

theorem removeExcessJobs_scheduled (s : Queue) (t : TerminalSet) (ids : List JobId) :
    (removeExcessJobs s t ids).scheduled = s.scheduled := by
  have hunlink (ids : List JobId) (q : Queue) : (ids.foldl unlinkJob q).scheduled = q.scheduled := by
    induction ids generalizing q with
    | nil => rfl
    | cons J ids ih => exact ih (q.unlinkJob J)
  have hrem (ids : List JobId) (q : Queue) :
      (ids.foldl (fun s J => s.zremTerminal t J) q).scheduled = q.scheduled := by
    induction ids generalizing q with
    | nil => rfl
    | cons J ids ih =>
      refine (ih _).trans ?_
      cases t <;> rfl
  unfold removeExcessJobs
  rw [hrem, hunlink]

theorem retain_scheduled (s : Queue) (t : TerminalSet) (J : JobId) (r : Retention)
    (timestamp : Int) : (retain s t J r timestamp).scheduled = s.scheduled := by
  have hcount (q : Queue) (n : Nat) : (retainCount q t n).scheduled = q.scheduled := by
    unfold retainCount
    simp only
    split
    · exact removeExcessJobs_scheduled _ _ _
    · rfl
  have hage (q : Queue) (age : Nat) : (retainAge q t age timestamp).scheduled = q.scheduled := by
    unfold retainAge
    split
    · exact removeExcessJobs_scheduled _ _ _
    · rfl
  cases r with
  | keep => rfl
  | remove => rfl
  | count n => exact hcount s n
  | ageCount age n => exact (hcount _ n).trans (hage s age)

theorem failRetry_scheduled (s : Queue) (a : FailArgs) (requeueOnly : Bool) :
    ∃ p : Nat, (failRetry s a requeueOnly).scheduled =
      s.scheduled.add a.jobId (p * priorityShift + (a.timestamp + a.backoffDelay)) := by
  unfold failRetry
  simp only
  generalize hu : (if ¬ requeueOnly ∧ (s.job a.jobId).opts.fallbacks then _ else s) = u
  have hscheduled : u.scheduled = s.scheduled := by
    rw [← hu]
    split <;> rfl
  have hslot (q : Queue) : (if 0 < (q.job a.jobId).orderingSeq then
      q.hset a.jobId ({ · with retainedSlot := true })
      else releaseGroupSlotAndPromote q a.jobId a.timestamp a.serverNow none false).scheduled =
      q.scheduled := by
    split
    · rfl
    · exact scheduled_of_frame (frame_releaseGroupSlotAndPromote _ _ _ _ _ _)
  refine ⟨(u.job a.jobId).priority, ?_⟩
  rw [settleListClaim_scheduled, ← hscheduled]
  exact hslot _

theorem failFinal_scheduled (s : Queue) (a : FailArgs) (processedOn : Int) :
    (failFinal s a processedOn).scheduled = s.scheduled := by
  have hmarked : (markFailed s a).scheduled = s.scheduled := by
    unfold markFailed
    split <;> rfl
  have hrecord (q : Queue) (x : Int) :
      (if a.skipMetrics then q else recordFailed q a.timestamp x).scheduled = q.scheduled := by
    split <;> rfl
  unfold failFinal
  simp only
  rw [settleListClaim_scheduled, retain_scheduled, hrecord,
    scheduled_of_frame (frame_releaseGroupSlotAndPromote _ _ _ _ _ _),
    scheduled_of_frame (frame_markOrderingDone _ _ _ _), hmarked]

theorem failJobCore_scheduled (s : Queue) (a : FailArgs) (requeueOnly : Bool) :
    if (failJobCore s a requeueOnly).2 = .retrying then
      ∃ p : Nat, (failJobCore s a requeueOnly).1.scheduled =
        s.scheduled.add a.jobId (p * priorityShift + (a.timestamp + a.backoffDelay))
    else (failJobCore s a requeueOnly).1.scheduled = s.scheduled := by
  have hack := ackDel_scheduled s a.group a.entryId
  unfold failJobCore
  simp only
  split
  · rw [if_neg (by simp)]
    unfold forgetListClaim
    split <;> exact hack
  generalize hu : (if requeueOnly = true then _ else _) = u
  have hscheduled : u.scheduled = s.scheduled := by
    rw [← hu]
    split <;> exact hack
  split
  · rw [if_pos rfl, ← hscheduled]
    exact failRetry_scheduled u a requeueOnly
  · rw [if_neg (by simp), ← hscheduled]
    exact failFinal_scheduled u a _

theorem failJobCore_due (hs : NonnegScores s) (hu : u.scheduled = s.scheduled) (a : FailArgs)
    (requeueOnly : Bool) (ht : ScheduledWithin (failJobCore u a requeueOnly).1 t) :
    GivesDue s t fun m =>
      if m = a.jobId ∧ (failJobCore u a requeueOnly).2 = .retrying then
        some (a.timestamp + a.backoffDelay)
      else none := by
  have hspec := failJobCore_scheduled u a requeueOnly
  split at hspec
  · rename_i hretry
    obtain ⟨p, hp⟩ := hspec
    rw [hu] at hp
    have hadd : GivesDue s (failJobCore u a requeueOnly).1 fun m =>
        if m = a.jobId ∧ (failJobCore u a requeueOnly).2 = .retrying then
          some (a.timestamp + a.backoffDelay)
        else none := by
      refine .of_add hs (.of_eq rfl) (Int.natCast_nonneg p) hp ?_ fun m hm => ?_
      · rw [if_pos ⟨rfl, hretry⟩]
      · rw [if_neg fun h => hm h.1]
    exact fun m x hx => hadd m x (ht m x hx)
  · rename_i hretry
    refine .of_within hs ?_ fun m => ?_
    · exact (ScheduledWithin.of_eq (hspec.trans hu)).trans ht
    · rw [if_neg fun h => hretry h.2]

theorem fail_due (hs : NonnegScores s) (a : FailArgs) (requeueOnly : Bool) :
    GivesDue s (fail s a requeueOnly).1 fun m => dueGiven s m (.fail a requeueOnly) :=
  failJobCore_due hs rfl a requeueOnly (.of_eq rfl)

theorem fetch_within (s : Queue) (a : FetchArgs) : ScheduledWithin s (fetchNextForChain s a).1 := by
  let args : CompleteNextArgs :=
    { jobId := "", entryId := none, timestamp := 0, serverNow := 0, group := "", consumer := "" }
  have hsteps : QSteps s (some (.completeAndFetchNext args)) (none, s)
      (none, (fetchNextForChain s a).1) := fetch_qsteps rfl (fun _ => rfl) a
  exact hsteps.scheduled_within rfl

theorem failAndFetchNext_due (hs : NonnegScores s) (a : FailArgs) (consumer : String) :
    GivesDue s (failAndFetchNext s a consumer).1
      fun m => dueGiven s m (.failAndFetchNext a consumer) := by
  refine failJobCore_due hs (u := beginChain s) rfl a false ?_
  unfold failAndFetchNext
  generalize failJobCore (beginChain s) a false = r
  obtain ⟨v, result⟩ := r
  simp only
  split
  · exact .of_eq rfl
  · exact (fetch_within v (a.fetch consumer)).trans (.of_eq rfl)

/-! ## Changes -/

theorem detachWaitingJob_scheduled {group : Group} (h : detachWaitingJob s group J = some t) :
    t.scheduled = s.scheduled := by
  unfold detachWaitingJob at h
  split at h
  · cases h
    rfl
  split at h
  · cases h
    rfl
  · obtain ⟨e, he, rfl⟩ := Option.map_eq_some_iff.mp h
    exact ackDel_scheduled s group _

theorem GivesDue.of_rem (hs : NonnegScores s) (ht : t.scheduled = s.scheduled.rem J)
    (hothers : ∀ m, m ≠ J → given m = none) : GivesDue s t given := by
  intro m x hx
  rw [ht, SortedSet.score_rem] at hx
  split at hx
  · cases hx
  · rename_i hm
    rw [hothers m hm]
    exact ⟨x, hx, rfl, hs m x hx⟩

theorem changePriority_scheduled (s : Queue) (J : JobId) (n : Nat) (group : Group) :
    if (changePriority s J n group).2 = .ok ∧ n ≠ 0 ∧ s.stateOf J ≠ some .delayed then
      (changePriority s J n group).1.scheduled = s.scheduled.add J (n * priorityShift)
    else
      (changePriority s J n group).1.scheduled = s.scheduled ∨
        (changePriority s J n group).1.scheduled = s.scheduled.rem J ∨
        ∃ x, s.scheduled.score J = some x ∧ (changePriority s J n group).1.scheduled =
          s.scheduled.add J (n * priorityShift + x % priorityShift) := by
  unfold changePriority
  split
  · simp
  split
  · simp
  simp only
  split
  · rename_i hst
    by_cases hn : n = 0
    · subst hn
      have hpush (q : Queue) : (if (q.job J).lifo then q.rpushLifo J
          else q.xaddJob J).scheduled = q.scheduled := by split <;> rfl
      simp only [↓reduceIte, ne_eq, not_true_eq_false, false_and, and_false]
      refine Or.inl ?_
      split
      · exact hpush (s.lremPriority J)
      · split <;> rfl
    · simp only [if_neg hn]
      split
      · simp
      · rename_i t hd
        rw [if_pos (by simp [hn, hst]), ← detachWaitingJob_scheduled hd]
        rfl
  · rename_i hst
    by_cases hn : n = 0
    · subst hn
      simp only [↓reduceIte, ne_eq, not_true_eq_false, false_and, and_false]
      exact Or.inr (Or.inl rfl)
    · simp only [if_neg hn]
      rw [if_pos (by simp [hn, hst])]
      rfl
  · rename_i hst
    rw [if_neg fun h => h.2.2 hst]
    split
    · exact Or.inl rfl
    · rename_i x hx
      refine Or.inr (Or.inr ⟨x, hx, ?_⟩)
      exact SortedSet.add_rem_self _ _ _
  · simp

theorem changePriority_due (hs : NonnegScores s) (J : JobId) (n : Nat) (group : Group) :
    GivesDue s (changePriority s J n group).1 fun m => dueGiven s m (.changePriority J n group) := by
  have hothers (m : String) (hm : m ≠ J) : dueGiven s m (.changePriority J n group) = none :=
    if_neg fun h => hm h.1
  have hspec := changePriority_scheduled s J n group
  split at hspec
  · rename_i hgives
    refine .of_add hs (.of_eq rfl) (Int.natCast_nonneg n) ?_ (if_pos ⟨rfl, hgives⟩) hothers
    rw [hspec, Int.add_zero]
  · rename_i hkeeps
    have hnone (m : String) : dueGiven s m (.changePriority J n group) = none :=
      if_neg fun h => hkeeps h.2
    rcases hspec with hsame | hrem | ⟨y, hy, hadd⟩
    · exact .of_within hs (.of_eq hsame) hnone
    · exact .of_within hs (.rem hrem) hnone
    · intro m x hx
      simp only [hnone]
      rw [hadd, SortedSet.score_add] at hx
      split at hx
      · rename_i hm
        cases hx
        refine ⟨y, hm ▸ hy, ?_, ?_⟩
        · rw [Int.mul_comm, Int.mul_add_emod_self_left, Int.emod_emod_of_dvd _ (dvd_refl _)]
        · have := Int.emod_nonneg y priorityShift_pos.ne'
          have := Int.mul_nonneg (Int.natCast_nonneg n) priorityShift_pos.le
          omega
      · exact ⟨x, hx, rfl, hs m x hx⟩

theorem changeDelay_scheduled (s : Queue) (J : JobId) (d now : Int) (group : Group) :
    if (changeDelay s J d now group).2 = .ok then
      (changeDelay s J d now group).1.scheduled = s.scheduled.rem J ∨
        ∃ p : Int, ((∃ x, s.scheduled.score J = some x ∧ p = x / priorityShift) ∨
            ∃ n : Nat, p = n) ∧
          (changeDelay s J d now group).1.scheduled =
            s.scheduled.add J (p * priorityShift + if d = 0 then 0 else now + d)
    else (changeDelay s J d now group).1.scheduled = s.scheduled := by
  have hband {x y : Int} (hx : s.scheduled.score J = some x) :
      (s.zaddScheduledXX J y).scheduled = s.scheduled.add J y := by
    rw [zaddScheduledXX_eq hx]
    rfl
  unfold changeDelay
  split
  · simp
  split
  · simp
  split
  · split
    · simp
    · rename_i x hx
      by_cases hd : d = 0
      · simp only [hd, ↓reduceIte, Int.add_zero]
        split
        · rw [if_pos rfl]
          exact Or.inr ⟨_, Or.inl ⟨x, hx, rfl⟩, hband hx⟩
        · rw [if_pos rfl]
          exact Or.inl rfl
      · simp only [hd, ↓reduceIte]
        exact Or.inr ⟨_, Or.inl ⟨x, hx, rfl⟩, hband hx⟩
  · by_cases hd : d = 0
    · simp [hd]
    · simp only [hd, ↓reduceIte]
      split
      · simp
      · rename_i t ht
        rw [if_pos rfl, ← detachWaitingJob_scheduled ht]
        exact Or.inr ⟨_, Or.inr ⟨_, rfl⟩, rfl⟩
  · by_cases hd : d = 0
    · simp [hd]
    · simp only [hd, ↓reduceIte]
      split
      · simp
      · rename_i x hx
        rw [if_pos rfl]
        exact Or.inr ⟨_, Or.inl ⟨x, hx, rfl⟩, hband hx⟩
  · simp

theorem changeDelay_due (hs : NonnegScores s) (J : JobId) (d now : Int) (group : Group) :
    GivesDue s (changeDelay s J d now group).1
      fun m => dueGiven s m (.changeDelay J d now group) := by
  have hothers (m : String) (hm : m ≠ J) : dueGiven s m (.changeDelay J d now group) = none :=
    if_neg fun h => hm h.1
  have hspec := changeDelay_scheduled s J d now group
  split at hspec
  · rename_i hok
    rcases hspec with hrem | ⟨p, hp, hadd⟩
    · exact .of_rem hs hrem hothers
    · refine .of_add hs (.of_eq rfl) ?_ hadd (if_pos ⟨rfl, hok⟩) hothers
      rcases hp with ⟨x, hx, rfl⟩ | ⟨n, rfl⟩
      · exact Int.ediv_nonneg (hs J x hx) priorityShift_pos.le
      · exact Int.natCast_nonneg n
  · rename_i hok
    exact .of_within hs (.of_eq hspec) fun m => if_neg fun h => hok h.2

theorem promoteJob_due (hs : NonnegScores s) (J : JobId) :
    GivesDue s (promoteJob s J).1 fun m => dueGiven s m (.promoteJob J) := by
  refine .of_within hs ?_ fun m => rfl
  unfold promoteJob
  split
  · exact .of_eq rfl
  split
  · exact .of_eq rfl
  refine .rem (m := J) ?_
  have hput (q : Queue) : (if (q.job J).lifo then q.rpushLifo J
      else if 0 < (q.job J).priority then q.lpushPriority J else q.xaddJob J).scheduled =
      q.scheduled := by
    repeat' split
    all_goals rfl
  exact hput (s.zremScheduled J)

theorem moveActiveToDelayed_due (hs : NonnegScores s) (a : PostponeArgs) (delayedUntil : Int) :
    GivesDue s (moveActiveToDelayed s a delayedUntil).1
      fun m => dueGiven s m (.moveActiveToDelayed a delayedUntil) := by
  have hothers (m : String) (hm : m ≠ a.jobId) :
      dueGiven s m (.moveActiveToDelayed a delayedUntil) = none := if_neg fun h => hm h.1
  by_cases hj : s.jobs a.jobId = none
  · have hres : moveActiveToDelayed s a delayedUntil = (s, .notFound) := by
      simp [moveActiveToDelayed, hj]
    refine .of_within hs (.of_eq (by rw [hres])) fun m => if_neg fun h => ?_
    simp [hres] at h
  by_cases hst : s.stateOf a.jobId = some .active
  · have hkeep (q : Queue) (now serverNow : Int) :
        (keepOrReleaseSlot q a.jobId now serverNow).scheduled = q.scheduled := by
      unfold keepOrReleaseSlot
      split
      · rfl
      · exact scheduled_of_frame (frame_releaseGroupSlotAndPromote _ _ _ _ _ _)
    have hok : (moveActiveToDelayed s a delayedUntil).2 = .ok := by
      simp [moveActiveToDelayed, hj, hst]
    refine .of_add hs (.of_eq rfl) (Int.natCast_nonneg ((ackDel s a.group a.entryId).job
      a.jobId).priority) ?_ (if_pos ⟨rfl, hok⟩) hothers
    unfold moveActiveToDelayed
    simp only [hj, hst, ↓reduceIte, ne_eq, not_true_eq_false]
    rw [hkeep, settleListClaim_scheduled, ← ackDel_scheduled s a.group a.entryId]
    rfl
  · have hres : moveActiveToDelayed s a delayedUntil = (s, .notActive) := by
      simp [moveActiveToDelayed, hj, hst]
    refine .of_within hs (.of_eq (by rw [hres])) fun m => if_neg fun h => ?_
    simp [hres] at h

/-! ## Manual retries -/

theorem retryFailedJob_scheduled (s : Queue) (J : JobId) (timestamp : Int) :
    (retryFailedJob s J timestamp).scheduled =
      s.scheduled.add J ((s.job J).priority * priorityShift + timestamp) := by
  unfold retryFailedJob issueSeq
  simp only
  split <;> rfl

theorem retryJob_due (hs : NonnegScores s) (J : JobId) (timestamp : Int) :
    GivesDue s (retryJob s J timestamp).1 fun m => dueGiven s m (.retryJob J timestamp) := by
  have hothers (m : String) (hm : m ≠ J) : dueGiven s m (.retryJob J timestamp) = none :=
    if_neg fun h => hm h.1
  by_cases hst : s.stateOf J = some .failed
  · have hres : retryJob s J timestamp = (retryFailedJob (s.zremFailed J) J timestamp, .ok) := by
      simp [retryJob, hst]
    refine .of_add hs (.of_eq rfl) (Int.natCast_nonneg ((s.zremFailed J).job J).priority) ?_
      (if_pos ⟨rfl, by rw [hres]⟩) hothers
    rw [hres]
    exact retryFailedJob_scheduled _ J timestamp
  · have hres : (retryJob s J timestamp).1 = s ∧ (retryJob s J timestamp).2 ≠ .ok := by
      unfold retryJob
      split
      · simp
      · rename_i heq
        exact absurd heq hst
      · simp
    exact .of_within hs (.of_eq (by rw [hres.1])) fun m => if_neg fun h => hres.2 h.2

/-- The failed jobs that have left the failed set got the due time, and nothing else was given. -/
structure Retried (timestamp : Int) (s t : Queue) : Prop where
  failed : ∀ m, m ∈ t.failed → m ∈ s.failed
  gone : ∀ m, t.jobs m = none ↔ s.jobs m = none
  score : ∀ m x, t.scheduled.score m = some x →
    if m ∈ s.failed ∧ m ∉ t.failed ∧ s.jobs m ≠ none then
      ∃ p : Nat, x = p * priorityShift + timestamp
    else s.scheduled.score m = some x

theorem Retried.refl (timestamp : Int) (s : Queue) : Retried timestamp s s := by
  refine ⟨fun m hm => hm, fun m => Iff.rfl, fun m x hx => ?_⟩
  rw [if_neg fun h => h.2.1 h.1]
  exact hx

theorem Retried.trans {timestamp : Int} (h : Retried timestamp s t) (h' : Retried timestamp t u) :
    Retried timestamp s u := by
  refine ⟨fun m hm => h.failed m (h'.failed m hm), fun m => (h'.gone m).trans (h.gone m),
    fun m x hx => ?_⟩
  have hlast := h'.score m x hx
  split at hlast
  · rename_i hretried
    rw [if_pos ⟨h.failed m hretried.1, hretried.2.1, fun hm => hretried.2.2 ((h.gone m).mpr hm)⟩]
    exact hlast
  · rename_i hkept
    have hfirst := h.score m x hlast
    split at hfirst
    · rename_i hretried
      rw [if_pos ⟨hretried.1, fun hm => hretried.2.1 (h'.failed m hm), hretried.2.2⟩]
      exact hfirst
    · rename_i hkept'
      rw [if_neg ?_]
      · exact hfirst
      · rintro ⟨hm, hnot, hj⟩
        by_cases ht : m ∈ t.failed
        · exact hkept ⟨ht, hnot, fun hgone => hj ((h.gone m).mp hgone)⟩
        · exact hkept' ⟨hm, ht, hj⟩

theorem retryFailedJob_failed (s : Queue) (J : JobId) (timestamp : Int) :
    (retryFailedJob s J timestamp).failed = s.failed := by
  unfold retryFailedJob issueSeq
  simp only
  split <;> rfl

theorem retryFailedJob_jobs_none (hj : s.jobs J ≠ none) (timestamp : Int) (K : JobId) :
    (retryFailedJob s J timestamp).jobs K = none ↔ s.jobs K = none := by
  by_cases hK : K = J
  · subst hK
    refine iff_of_false ?_ hj
    simp [retryFailedJob]
  · rw [retryFailedJob_jobs_of_ne hK]

theorem foldl_retryOne (timestamp : Int) (ids : List JobId) (r : Queue × Nat) :
    let t := (ids.foldl (retryOne timestamp) r).1
    t.failed = r.1.failed ∧ (∀ m, t.jobs m = none ↔ r.1.jobs m = none) ∧
      ∀ m x, t.scheduled.score m = some x →
        if m ∈ ids ∧ r.1.jobs m ≠ none then ∃ p : Nat, x = p * priorityShift + timestamp
        else r.1.scheduled.score m = some x := by
  induction ids generalizing r with
  | nil => simp
  | cons J ids ih =>
    obtain ⟨hfailed, hgone, hscore⟩ := ih (retryOne timestamp r J)
    have hone : (retryOne timestamp r J).1.failed = r.1.failed ∧
        (∀ m, (retryOne timestamp r J).1.jobs m = none ↔ r.1.jobs m = none) ∧
        ∀ m, (retryOne timestamp r J).1.scheduled.score m =
          if m = J ∧ r.1.jobs J ≠ none then
            some ((r.1.job J).priority * priorityShift + timestamp)
          else r.1.scheduled.score m := by
      unfold retryOne
      by_cases hj : r.1.jobs J = none
      · simp [hj]
      · simp only [hj, ↓reduceIte, ne_eq, not_false_eq_true, and_true]
        refine ⟨retryFailedJob_failed _ _ _, retryFailedJob_jobs_none hj timestamp, fun m => ?_⟩
        rw [retryFailedJob_scheduled, SortedSet.score_add]
    refine ⟨hfailed.trans hone.1, fun m => (hgone m).trans (hone.2.1 m), fun m x hx => ?_⟩
    have hlast := hscore m x hx
    simp only [ne_eq, hone.2.1, List.mem_cons] at hlast ⊢
    by_cases hm : m ∈ ids ∧ ¬ r.1.jobs m = none
    · rw [if_pos hm] at hlast
      rw [if_pos ⟨Or.inr hm.1, hm.2⟩]
      exact hlast
    · rw [if_neg hm, hone.2.2] at hlast
      by_cases hJ : m = J ∧ r.1.jobs J ≠ none
      · rw [if_pos hJ] at hlast
        rw [if_pos ⟨Or.inl hJ.1, hJ.1 ▸ hJ.2⟩]
        exact ⟨_, (Option.some.inj hlast).symm⟩
      · rw [if_neg hJ] at hlast
        rw [if_neg]
        · exact hlast
        · rintro ⟨rfl | hids, hj⟩
          · exact hJ ⟨rfl, hj⟩
          · exact hm ⟨hids, hj⟩

theorem foldl_zremFailed (ids : List JobId) (s : Queue) :
    (ids.foldl zremFailed s).failed = s.failed.remAll ids ∧
      (ids.foldl zremFailed s).jobs = s.jobs ∧
      (ids.foldl zremFailed s).scheduled = s.scheduled := by
  induction ids generalizing s with
  | nil => exact ⟨rfl, rfl, rfl⟩
  | cons J ids ih => exact ih (s.zremFailed J)

theorem retryBatch_retried (timestamp : Int) (n : Nat) {ids : List JobId}
    (hids : ∀ m ∈ ids, m ∈ s.failed) :
    Retried timestamp s (ids.foldl (retryOne timestamp) (ids.foldl zremFailed s, n)).1 := by
  obtain ⟨hremoved, hjobs, hscheduled⟩ := foldl_zremFailed ids s
  obtain ⟨hfailed, hgone, hscore⟩ := foldl_retryOne timestamp ids (ids.foldl zremFailed s, n)
  simp only [hremoved, hjobs, hscheduled] at hfailed hgone hscore
  refine ⟨fun m hm => ?_, hgone, fun m x hx => ?_⟩
  · rw [hfailed, SortedSet.mem_remAll] at hm
    exact hm.2
  · have hlast := hscore m x hx
    simp only [hfailed, SortedSet.mem_remAll, not_and]
    split at hlast
    · rename_i hm
      rw [if_pos ⟨hids m hm.1, fun hnot => absurd hm.1 hnot, hm.2⟩]
      exact hlast
    · rename_i hm
      rw [if_neg]
      · exact hlast
      · rintro ⟨hfail, hout, hj⟩
        by_cases hin : m ∈ ids
        · exact hm ⟨hin, hj⟩
        · exact hout hin hfail

theorem retryBatches_retried (count : Nat) (timestamp : Int) :
    ∀ (fuel : Nat) (r : Queue × Nat),
      Retried timestamp r.1 (retryBatches count timestamp fuel r).1
  | 0, r => .refl timestamp r.1
  | fuel + 1, (s, n) => by
    rw [retryBatches]
    split
    · exact .refl timestamp s
    generalize (if 0 < count then min 1000 (count - n) else 1000) = k
    simp only
    split
    · exact .refl timestamp s
    · refine Retried.trans (retryBatch_retried timestamp n fun m hm => ?_)
        (retryBatches_retried count timestamp fuel _)
      exact SortedSet.mem_of_mem_take hm

theorem retryJobs_due (hs : NonnegScores s) (count : Nat) (timestamp : Int) :
    GivesDue s (retryJobs s count timestamp).1
      fun m => dueGiven s m (.retryJobs count timestamp) := by
  have hretried : Retried timestamp s (retryJobs s count timestamp).1 :=
    retryBatches_retried count timestamp _ (s, 0)
  intro m x hx
  have hscore := hretried.score m x hx
  simp only [dueGiven]
  split at hscore
  · rename_i hm
    rw [if_pos hm]
    obtain ⟨p, hp⟩ := hscore
    exact ⟨p, Int.natCast_nonneg p, hp⟩
  · rename_i hm
    rw [if_neg hm]
    exact ⟨x, hscore, rfl, hs m x hscore⟩

/-! ## Runs -/

/-- Every call gives the due times it gives, and no other. -/
theorem call_due (hs : NonnegScores s) (call : Call) :
    GivesDue s (call.run s) fun m => dueGiven s m call := by
  cases call with
  | addJob a => exact addJob_due hs a
  | dedup a => exact dedup_due hs a
  | fail a requeueOnly => exact fail_due hs a requeueOnly
  | failAndFetchNext a consumer => exact failAndFetchNext_due hs a consumer
  | changePriority J newPriority group => exact changePriority_due hs J newPriority group
  | changeDelay J newDelay now group => exact changeDelay_due hs J newDelay now group
  | promoteJob J => exact promoteJob_due hs J
  | moveActiveToDelayed a delayedUntil => exact moveActiveToDelayed_due hs a delayedUntil
  | retryJobs count timestamp => exact retryJobs_due hs count timestamp
  | retryJob J timestamp => exact retryJob_due hs J timestamp
  | _ => exact .of_within hs (call_scheduled_within s rfl) fun m => rfl

/-- The queue, and a history: the due time that each member was given last. -/
abbrev DueRun := Queue × (String → Option Int)

def dueStep (x : DueRun) (call : Call) : DueRun :=
  (call.run x.1, fun m => dueGiven x.1 m call <|> x.2 m)

/-- Every due time that the call gives fits into a band. -/
def FitsBand (s : Queue) (call : Call) : Prop :=
  ∀ m g, dueGiven s m call = some g → 0 ≤ g ∧ g < priorityShift

/-- Below its band's start, a score is the due time that was given last. -/
def Timed (x : DueRun) : Prop :=
  ∀ m v, x.1.scheduled.score m = some v → 0 ≤ v ∧ x.2 m = some (v % priorityShift)

theorem Timed.step {x : DueRun} (h : Timed x) {call : Call} (hfits : FitsBand x.1 call) :
    Timed (dueStep x call) := by
  intro m v hv
  have hdue := call_due (fun m v hv => (h m v hv).1) call m v hv
  simp only [dueStep]
  cases hgiven : dueGiven x.1 m call with
  | some g =>
    simp only [hgiven] at hdue
    obtain ⟨p, hp, rfl⟩ := hdue
    obtain ⟨hnonneg, hlt⟩ := hfits m g hgiven
    refine ⟨?_, ?_⟩
    · have := Int.mul_nonneg hp priorityShift_pos.le
      omega
    · rw [Int.mul_comm, Int.mul_add_emod_self_left, Int.emod_eq_of_lt hnonneg hlt]
      rfl
  | none =>
    simp only [hgiven] at hdue
    obtain ⟨y, hy, hmod, hnonneg⟩ := hdue
    refine ⟨hnonneg, ?_⟩
    rw [hmod]
    exact (h m y hy).2

/-! ## Promotion -/

theorem promote_takes_due (now serverNow : Int) :
    ∀ q ∈ s.scheduled.items, q ∈ (promote s now serverNow).1.scheduled.items ∨
      ∃ p, DueIn s now p q.1 := by
  have hstep (t : Queue) (p p' : Int) (m : String)
      (ht : ∀ q ∈ s.scheduled.items, q ∈ t.scheduled.items ∨ ∃ p, DueIn s now p q.1) (_ : p ≤ p')
      (hdue : DueIn s now p' m) : ∀ q ∈ s.scheduled.items,
        q ∈ (promoteMember p' now serverNow t m).scheduled.items ∨ ∃ p, DueIn s now p q.1 := by
    intro q hq
    rcases ht q hq with hmem | htaken
    · by_cases hm : q.1 = m
      · exact Or.inr ⟨p', hm ▸ hdue⟩
      · refine Or.inl ?_
        rw [scheduled_promoteMember, mem_items_rem]
        exact ⟨hmem, hm⟩
    · exact Or.inr htaken
  obtain ⟨p, hp⟩ := promote_rule s now serverNow hstep fun q hq => Or.inl hq
  exact hp

/-- In a run from an empty set in which each due time that a call gives fits into a band, a
promotion takes no member before the due time it was given last, and one below the cap leaves no
due member. -/
theorem promotions_on_time (hempty : s.scheduled = ∅) {calls : List Call}
    (hmeets : Machine.Meets dueStep (fun x call => FitsBand x.1 call) (s, fun _ => none) calls)
    (now serverNow : Int) :
    let x := Machine.run dueStep (s, fun _ => none) calls
    let r := promote x.1 now serverNow
    (∀ m ∈ x.1.scheduled, m ∉ r.1.scheduled → ∃ g, x.2 m = some g ∧ g ≤ now) ∧
      (r.2 < maxPromotions → ∀ m ∈ r.1.scheduled, ∃ g, x.2 m = some g ∧ now < g) := by
  intro x r
  have htimed : Timed x := by
    refine Machine.invariant (fun y call hy hcall => hy.step hcall) (fun m v hv => ?_) hmeets
    rw [hempty] at hv
    cases hv
  have hscore {z : SortedSet String} {m : String} (hm : m ∈ z) : ∃ v, (m, v) ∈ z.items :=
    SortedSet.mem_iff.mp hm
  refine ⟨fun m hm hout => ?_, fun hcap m hm => ?_⟩
  · obtain ⟨v, hv⟩ := hscore hm
    obtain ⟨hnonneg, hdue⟩ := htimed m v (SortedSet.score_eq_some.mpr hv)
    refine ⟨_, hdue, ?_⟩
    rcases promote_takes_due now serverNow (m, v) hv with hleft | ⟨p, w, hw, hlow, hhigh⟩
    · exact absurd (SortedSet.mem_iff.mpr ⟨v, hleft⟩) hout
    · cases SortedSet.eq_of_mem_items hv hw
      -- the band of the round is not above the member's own
      have hband : p ≤ v / priorityShift := (Int.le_ediv_iff_mul_le priorityShift_pos).mpr hlow
      have hmul := Int.mul_le_mul_of_nonneg_right hband priorityShift_pos.le
      have hsplit := Int.ediv_mul_add_emod v priorityShift
      omega
  · obtain ⟨v, hv⟩ := hscore hm
    have hwithin : ScheduledWithin x.1 (Call.run x.1 (.promote now serverNow)) :=
      call_scheduled_within x.1 rfl
    have hold := hwithin m v (SortedSet.score_eq_some.mpr hv)
    obtain ⟨hnonneg, hdue⟩ := htimed m v hold
    exact ⟨_, hdue, promote_leaves_none_due hcap (m, v) hv hnonneg⟩

end

/-- Two delayed jobs in two bands. The first is put off, the second is due first. -/
def twoBands : List Call :=
  [.addJob { timestamp := 1, serverNow := 1, delay := 5 },
    .addJob { timestamp := 1, serverNow := 1, delay := 7, priority := 3 }, .promote 3 3, .changeDelay "1" 9 4 ""]

theorem twoBands_fit : Machine.Meets dueStep (fun x call => FitsBand x.1 call) ({ name := "q" }, fun _ => none) twoBands := by
  refine ⟨?_, ?_, ?_, ?_, trivial⟩
  all_goals
    intro m g hgiven
    simp only [dueGiven] at hgiven
  · split at hgiven <;> cases hgiven
    decide
  · split at hgiven <;> cases hgiven
    decide
  · cases hgiven
  · split at hgiven <;> cases hgiven
    decide

theorem promotions_on_time_for_two_bands :
    let x := Machine.run dueStep ({ name := "q" }, fun _ => none) twoBands
    let r := promote x.1 9 9
    (x.2 "1" = some 13 ∧ x.2 "2" = some 8 ∧ r.2 = 1) ∧
      (∀ m ∈ x.1.scheduled, m ∉ r.1.scheduled → ∃ g, x.2 m = some g ∧ g ≤ 9) ∧
      (r.2 < maxPromotions → ∀ m ∈ r.1.scheduled, ∃ g, x.2 m = some g ∧ 9 < g) :=
  ⟨by decide +kernel, promotions_on_time rfl twoBands_fit 9 9⟩

/-- A delay of 2 ^ 42 is in the band of priority 1. -/
theorem promotion_too_early :
    let x := Machine.run dueStep ({ name := "q" }, fun _ => none)
      [.addJob { timestamp := 1, serverNow := 1, delay := 4398046511104 }]
    "1" ∈ x.1.scheduled ∧ "1" ∉ (promote x.1 10 10).1.scheduled ∧
      x.2 "1" = some 4398046511105 := by
  decide +kernel

end GlideMq
