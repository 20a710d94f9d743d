import GlideMq.Proofs.ClaimSteps

/-!
# What a chain call fetches

Each phase of a chain call takes a job from its source and claims it, or drops it.
-/

namespace GlideMq

open Queue

/-! ## Steps -/

/-- The claims on a job that a chain call popped. -/
def listMode (k : ListKey) : ClaimMode := ⟨True, True, k = .lifo⟩

/-- The claims on a job that a chain call read from the stream: the entry is the job's own. -/
def streamMode : ClaimMode := ⟨True, True, False⟩

/-- One step of a fetch. `reach` are the jobs of each list that its attempts can pop. -/
inductive FetchStep (reach : ListKey → List JobId) (s : Queue) : Queue → Prop
  | claim {t} (h : ClaimStep streamMode s t) : FetchStep reach s t
  | popClaim {k J t} (hlast : (s.list k).getLast? = some J) (hreach : J ∈ reach k)
      (h : Claims (listMode k) J (s.drop k) t) : FetchStep reach s t
  /-- A popped job that is deleted, that does not wait or that is revoked. -/
  | popDrop {k J} (hlast : (s.list k).getLast? = some J) (hreach : J ∈ reach k)
      (h : s.stateOf J = none ∨ ¬ isActivatable (s.stateOf J) ∨ (s.job J).revoked) :
      FetchStep reach s (s.drop k)

abbrev FetchSteps (reach : ListKey → List JobId) : Queue → Queue → Prop :=
  Relation.ReflTransGen (FetchStep reach)

section

variable {reach : ListKey → List JobId} {s t : Queue}

theorem ClaimSteps.fetches (h : ClaimSteps streamMode s t) : FetchSteps reach s t :=
  h.keeps (fun _ _ hstep hf => hf.tail (.claim hstep)) .refl

theorem FetchSteps.keeps {I : Queue → Prop} (hI : ∀ s t, FetchStep reach s t → I s → I t)
    (h : FetchSteps reach s t) (hs : I s) : I t := by
  induction h with
  | refl => exact hs
  | tail _ hstep ih => exact hI _ _ hstep ih

end

/-! ## Lists -/

@[simp] theorem stateOf_drop (s : Queue) (k : ListKey) (J : JobId) :
    (s.drop k).stateOf J = s.stateOf J := by
  cases k <;> rfl

theorem list_drop_self (s : Queue) (k : ListKey) : (s.drop k).list k = (s.list k).dropLast := by
  cases k <;> rfl

theorem list_drop_of_ne {k k' : ListKey} (hne : k' ≠ k) (s : Queue) :
    (s.drop k).list k' = s.list k' := by
  cases k <;> cases k' <;> first | rfl | exact absurd rfl hne

@[simp] theorem job_drop (s : Queue) (k : ListKey) (J : JobId) : (s.drop k).job J = s.job J := by
  cases k <;> rfl

theorem core_incrListActive (s : Queue) (ids : List JobId) : (incrListActive s ids).core = s.core :=
  rfl

theorem core_recordFailedUnless (b : Bool) (s : Queue) (t d : Int) :
    (recordFailedUnless b s t d).core = s.core := by
  unfold recordFailedUnless
  split <;> rfl

theorem closeOrderingHole_of_zero {s : Queue} {J : JobId} (h : (s.job J).orderingSeq = 0) :
    closeOrderingHole s J = s := by
  unfold closeOrderingHole
  simp only [getD_jobs, h]
  split <;> simp

theorem job_endFailed {α : Type} (f : Job → α)
    (hf : ∀ (j : Job) r y, f { j with
      state := some .failed, failedReason := some r, finishedOn := some y } = f j)
    (s : Queue) (J K : JobId) (x : Int) (r : String) (y : Int) :
    f ((endFailed s J x r y).job K) = f (s.job K) := by
  unfold endFailed Queue.setFailed Queue.job
  simp only [hset_jobs, zaddFailed_jobs, Function.update_apply]
  split
  · rename_i h; subst h; simp [hf]
  · rfl

section

variable {k : ListKey} {J : JobId} {s : Queue}

theorem entryOf_none (s : Queue) (J : JobId) : EntryOf s J none := by simp [EntryOf]

theorem claims_failOversizePriority (h : Claimable (listMode k) J none s) (a : FetchArgs) (gk : GroupKey) :
    Claims (listMode k) J s (failOversizePriority s a J gk) := by
  unfold failOversizePriority
  simp only
  generalize hv : recordFailedUnless a.skipMetrics _ _ _ = v
  have hcore : v.core = (endFailed s J a.timestamp costReason a.timestamp).core := by
    rw [← hv, core_recordFailedUnless, core_noteActivationFailure, core_advanceRepeatAfterComplete]
    rfl
  have hfail {u : Queue} (hu : u.core = v.core) : ClaimOutcome (listMode k) J s (closeOrderingHole u J) := by
    have hclosed : (closeOrderingHole u J).core = (closeOrderingHole
        (endFailed (ackDel s a.group none) J a.timestamp costReason a.timestamp) J).core :=
      core_closeOrderingHole (hu.trans hcore) J
    exact .fail h.hst h.hj h.hW hclosed
  split
  · exact (hfail (core_markOrderingDone v J _ _)).claims.before
      (closeOrderingHoleAndPromote_steps _ J _ _).tails
  · rename_i hseq
    have hz : (v.job J).orderingSeq = 0 := by
      rw [job_of_core Job.orderingSeq (fun _ => rfl) hcore, job_endFailed Job.orderingSeq fun _ _ _ => rfl]
      omega
    have := hfail (u := v) rfl
    rw [closeOrderingHole_of_zero hz] at this
    exact this.claims

theorem fetchPriorityInGroup_claims (h : Claimable (listMode k) J none s) (a : FetchArgs) {gk : GroupKey}
    (hkey : (s.job J).groupKey = some gk) : Claims (listMode k) J s (fetchPriorityInGroup s a J gk).1 := by
  unfold fetchPriorityInGroup
  simp only
  obtain ⟨hsteps, hjobs, hstream, hnext⟩ := atFrontier_skipToNext s gk (s.job J).orderingSeq
  generalize skipToNext s gk (s.groups gk).nextSeq = r at *
  obtain ⟨u, n⟩ := r
  simp only at hsteps hjobs hstream hnext ⊢
  have hjob : u.job J = s.job J := by unfold Queue.job; rw [hjobs]
  have hu := h.of_eq hjobs hstream
  have hkey' : (u.job J).groupKey = some gk := by rw [hjob]; exact hkey
  split
  · exact (claims_park hu hkey' a.group _).after hsteps.tails
  rename_i hgates
  have hrefill : (refill u gk a.serverNow).1.core = u.core := core_refill u gk a.serverNow
  have hv := hu.of_core hrefill
  generalize (refill u gk a.serverNow) = q at *
  obtain ⟨v, tokens⟩ := q
  simp only at hrefill hv ⊢
  have hkeyv : (v.job J).groupKey = some gk := by
    rw [job_of_core Job.groupKey (fun _ => rfl) hrefill, hkey']
  have hsteps' : ClaimTails (listMode k) s v := hsteps.tails.trans (ClaimTails.of_core hrefill)
  split
  · exact (claims_failOversizePriority hv a gk).after hsteps'
  generalize (ite (tokenDelay _ _ _).isSome none (windowDelay _ _)) = rl
  split
  · exact ((claims_park hv hkeyv a.group _).before (GroupSteps.one (.limit gk _)).tails).after hsteps'
  -- the job starts
  refine Claims.after hsteps.tails (Claims.quiet (ClaimOutcome.claims ?_) (core_incrListActive _ _))
  have hcharge : (chargeGroup v gk ((s.job J).cost.getD 1000) a.timestamp).core = u.core :=
    (core_chargeGroup v gk _ a.timestamp).trans hrefill
  by_cases hreturning : 0 < (s.job J).orderingSeq ∧ 0 < n ∧ (s.job J).orderingSeq < n
  · refine outcome_startAgain hu hkey' (by rw [hjob]; exact hreturning.1) ?_ hcharge true (fun _ => trivial) ?_
    · rw [hjob, ← hnext hreturning.1]; exact hreturning.2.2
    · simp only [hreturning, and_self, decide_true, if_true, not_true_eq_false, and_false, if_false]
      exact core_activate _ _ _ _
  · refine outcome_startFirst hu hkey' ?_ ?_ hcharge ?_
    · rw [hjob]
      rcases Nat.eq_zero_or_pos (s.job J).orderingSeq with hz | hseq
      · exact Or.inl hz
      · have := hnext hseq
        omega
    · simp only [hreturning, decide_false, Bool.false_eq_true, not_false_eq_true, and_true] at hgates
      omega
    · simp only [hreturning, decide_false, hjob, Bool.false_eq_true, not_false_eq_true, and_true,
        if_false]
      unfold startInGroup
      split
      · exact core_zremGroupq (core_takeSlot (core_activate _ J a.timestamp true) gk _) gk J
      · exact core_takeSlot (core_activate _ J a.timestamp true) gk _

/-- What the chain call does with a job that it popped. -/
def DroppedOrClaimed (k : ListKey) (J : JobId) (s t : Queue) : Prop :=
  t = s ∧ (s.stateOf J = none ∨ ¬ isActivatable (s.stateOf J) ∨ (s.job J).revoked) ∨
    Claims (listMode k) J s t

theorem exists_job_of_state {s : Queue} {J : JobId} (h : (s.job J).state ≠ none) :
    s.jobs J ≠ none ∧ s.stateOf J = (s.job J).state := by
  unfold Queue.job Queue.stateOf at *
  cases hj : s.jobs J with
  | none => simp [hj] at h
  | some j => simp

theorem fetchPriority_cases (s : Queue) (a : FetchArgs) (J : JobId) :
    DroppedOrClaimed .priority J s (fetchPriority s a J).1 := by
  unfold fetchPriority DroppedOrClaimed
  simp only [← stateOf_eq]
  by_cases hdrop : s.stateOf J = none ∨ ¬ isActivatable (s.stateOf J) ∨ (s.job J).revoked
  · rw [if_pos hdrop]
    exact Or.inl ⟨rfl, hdrop⟩
  rw [if_neg hdrop]
  simp only [not_or, not_not] at hdrop
  have h : Claimable (listMode .priority) J none s :=
    ⟨hdrop.2.1, (exists_job_of_state (by rw [← stateOf_eq]; exact hdrop.1)).1,
      fun _ => entryOf_none s J⟩
  refine Or.inr ?_
  split
  · exact claims_expireJob h a.group _ _ _ _ _
  split
  · rename_i gk hkey
    exact fetchPriorityInGroup_claims h a hkey
  · rename_i hkey
    exact (claims_start h (Or.inl hkey) _ _).quiet (core_incrListActive _ _)

theorem fetchLifo_cases (s : Queue) (a : FetchArgs) (J : JobId) :
    DroppedOrClaimed .lifo J s (fetchLifo s a J).1 := by
  unfold fetchLifo DroppedOrClaimed
  simp only [← stateOf_eq]
  by_cases hdrop : s.stateOf J = none ∨ ¬ isActivatable (s.stateOf J) ∨ (s.job J).revoked
  · rw [if_pos hdrop]
    exact Or.inl ⟨rfl, hdrop⟩
  rw [if_neg hdrop]
  simp only [not_or, not_not] at hdrop
  have h : Claimable (listMode .lifo) J none s :=
    ⟨hdrop.2.1, (exists_job_of_state (by rw [← stateOf_eq]; exact hdrop.1)).1,
      fun _ => entryOf_none s J⟩
  refine Or.inr ?_
  split
  · exact claims_expireJob h a.group _ _ _ _ _
  · exact (claims_start h (Or.inr rfl) _ _).quiet (core_incrListActive _ _)

end

theorem fetchStep_pop {reach : ListKey → List JobId} {s t : Queue} {k : ListKey} {J : JobId}
    (hlast : (s.list k).getLast? = some J) (hreach : J ∈ reach k)
    (h : DroppedOrClaimed k J (s.drop k) t) : FetchStep reach s t := by
  rcases h with ⟨rfl, hdrop⟩ | hclaim
  · refine .popDrop hlast hreach ?_
    rwa [stateOf_drop, job_drop] at hdrop
  · exact .popClaim hlast hreach hclaim

theorem DroppedOrClaimed.list {s t : Queue} {k : ListKey} {J : JobId} (h : DroppedOrClaimed k J s t)
    (k' : ListKey) : t.list k' = s.list k' := by
  rcases h with ⟨rfl, _⟩ | hclaim
  · rfl
  · exact hclaim.steps.list k'

theorem listPhase_list (k k' : ListKey) {fetch : Queue → JobId → Fetched}
    (hfetch : ∀ s J, DroppedOrClaimed k J s (fetch s J).1) (hne : k' ≠ k) :
    ∀ (attempts : Nat) (s : Queue), (listPhase k fetch attempts s).1.list k' = s.list k'
  | 0, s => rfl
  | attempts + 1, s => by
    rw [listPhase]
    split
    · rfl
    · rename_i J hlast
      have hlist := (hfetch (s.drop k) J).list k'
      rw [list_drop_of_ne hne] at hlist
      split
      · rename_i heq
        rwa [heq] at hlist
      · rename_i heq
        rw [heq] at hlist
        rw [listPhase_list k k' hfetch hne attempts, hlist]

theorem listPhase_steps {reach : ListKey → List JobId} (k : ListKey)
    {fetch : Queue → JobId → Fetched} (hfetch : ∀ s J, DroppedOrClaimed k J s (fetch s J).1) :
    ∀ (attempts : Nat) (s : Queue), (∀ J ∈ (s.list k).reverse.take attempts, J ∈ reach k) →
      FetchSteps reach s (listPhase k fetch attempts s).1
  | 0, s, _ => .refl
  | attempts + 1, s, hreach => by
    rw [listPhase]
    split
    · exact .refl
    · rename_i J hlast
      obtain ⟨l, hl⟩ := List.getLast?_eq_some_iff.mp hlast
      have hJ : J ∈ reach k := hreach J (by simp [hl])
      have hstep := fetchStep_pop hlast hJ (hfetch (s.drop k) J)
      have hlist := (hfetch (s.drop k) J).list k
      split
      · rename_i heq
        rw [heq] at hstep
        exact .single hstep
      · rename_i t heq
        rw [heq] at hstep hlist
        refine .head hstep (listPhase_steps k hfetch attempts _ fun K hK => hreach K ?_)
        rw [hlist, list_drop_self, hl, List.dropLast_concat] at hK
        rw [hl, List.reverse_append]
        exact List.mem_cons_of_mem J hK

/-! ## Stream -/

theorem core_deliver (s : Queue) (group : Group) (consumer : String) (e : Redis.Entry JobEntry) :
    (s.deliver group consumer e).core = s.core := rfl

theorem entryOf_mem {s : Queue} {e : Redis.Entry JobEntry} (he : e ∈ s.stream.entries) :
    EntryOf s e.val.jobId (some e.id) := by
  rintro n ⟨⟩
  refine ⟨s.stream.le_lastId e he, fun e' he' hid => ?_⟩
  rw [Redis.Stream.eq_of_id_eq he' he hid]

theorem streamPhase_steps (a : FetchArgs) (listsEmpty : Bool) :
    ∀ (attempts : Nat) (s : Queue), ClaimSteps streamMode s (streamPhase a listsEmpty attempts s).1 ∧
      ∀ J e, (streamPhase a listsEmpty attempts s).2 = .picked J e →
        Claimable streamMode J (some e) (streamPhase a listsEmpty attempts s).1
  | 0, s => ⟨.refl, by rintro J e ⟨⟩⟩
  | attempts + 1, s => by
    rw [streamPhase]
    split
    · exact ⟨ClaimSteps.of_core rfl, by rintro J e ⟨⟩⟩
    rename_i e hnext
    have hmem := Redis.Stream.mem_of_next? hnext
    have hcore := core_deliver s a.group a.consumer e
    have hentry : EntryOf (s.deliver a.group a.consumer e) e.val.jobId (some e.id) :=
      (entryOf_of_core hcore).mpr (entryOf_mem hmem)
    have hdeliver : ClaimSteps streamMode s (s.deliver a.group a.consumer e) := ClaimSteps.of_core hcore
    simp only [← stateOf_eq]
    generalize s.deliver a.group a.consumer e = u at *
    split
    · exact ⟨hdeliver, by rintro J e ⟨⟩⟩
    rename_i hstate
    split
    · exact ⟨hdeliver, by rintro J e ⟨⟩⟩
    split
    · rename_i hst
      have hack : ClaimStep streamMode u (ackDel u a.group (some e.id)) := by
        refine .tail (.ack (J := e.val.jobId) ?_ fun _ => hentry)
        intro hw
        simp [hw, isActivatable] at hst
      obtain ⟨hsteps, hpick⟩ := streamPhase_steps a listsEmpty attempts
        (ackDel u a.group (some e.id))
      exact ⟨(hdeliver.tail hack).trans hsteps, hpick⟩
    rename_i hst
    have h : Claimable streamMode e.val.jobId (some e.id) u :=
      ⟨by simpa using hst, (exists_job_of_state (by rwa [← stateOf_eq])).1, fun _ => hentry⟩
    split
    · have hexpire := claims_expireJob h a.group a.timestamp a.serverNow none none none
      obtain ⟨hsteps, hpick⟩ := streamPhase_steps a listsEmpty attempts
        (ackDel (expireJob u e.val.jobId a.timestamp a.serverNow (u.stateOf e.val.jobId) none none none)
          a.group (some e.id))
      exact ⟨(hdeliver.trans hexpire.steps).trans hsteps, hpick⟩
    · refine ⟨hdeliver, ?_⟩
      rintro J e' ⟨⟩
      exact h

theorem fetchStreamInGroup_claims {s : Queue} {a : FetchArgs} {J : JobId} {e : Nat}
    {gk : GroupKey} (h : Claimable streamMode J (some e) s) (hkey : (s.job J).groupKey = some gk) :
    Claims streamMode J s (fetchStreamInGroup s a J e gk).1 := by
  unfold fetchStreamInGroup
  simp only
  generalize hr : (if 0 < (s.job J).orderingSeq then skipToNext s gk (s.groups gk).nextSeq
    else (s, 0)) = r
  have hzero : (s.job J).orderingSeq = 0 → r.2 = 0 := fun hz => by rw [← hr, hz]; rfl
  obtain ⟨hsteps, hjobs, hstream, hnext⟩ : AtFrontier s gk (s.job J).orderingSeq r :=
    hr ▸ atFrontier_frontierOf s gk (s.job J).orderingSeq
  obtain ⟨u, n⟩ := r
  simp only at hsteps hjobs hstream hnext hzero ⊢
  have hjob : u.job J = s.job J := by unfold Queue.job; rw [hjobs]
  have hu := h.of_eq hjobs hstream
  have hkey' : (u.job J).groupKey = some gk := by rw [hjob]; exact hkey
  by_cases hearly : 0 < n ∧ n < (s.job J).orderingSeq
  · rw [if_pos hearly]
    exact (claims_park hu hkey' _ _).after hsteps.tails
  rw [if_neg hearly]
  by_cases hfull : 0 < (u.groups gk).maxConcurrency ∧
      (u.groups gk).maxConcurrency ≤ (u.groups gk).active ∧
      ¬ (decide (0 < n ∧ (s.job J).orderingSeq < n)) = true
  · rw [if_pos hfull]
    exact (claims_park hu hkey' _ _).after hsteps.tails
  rw [if_neg hfull]
  have hrefill : (refill u gk a.serverNow).1.core = u.core := core_refill u gk a.serverNow
  have hv := hu.of_core hrefill
  generalize (refill u gk a.serverNow) = q at *
  obtain ⟨v, tokens⟩ := q
  simp only at hrefill hv ⊢
  have hkeyv : (v.job J).groupKey = some gk := by
    rw [job_of_core Job.groupKey (fun _ => rfl) hrefill, hkey']
  have hsteps' : ClaimTails streamMode s v := hsteps.tails.trans (ClaimTails.of_core hrefill)
  split
  · generalize hw : recordFailedUnless a.skipMetrics _ _ _ = w
    have hcore : w.core = (endFailed (ackDel v a.group (some e)) J a.timestamp costReason
        a.timestamp).core := by
      rw [← hw, core_recordFailedUnless, core_noteActivationFailure, core_failOversize]
    have hfail : ClaimOutcome streamMode J v (closeOrderingHole w J) :=
      .fail hv.hst hv.hj hv.hW (core_closeOrderingHole hcore J)
    exact (hfail.claims.before (closeOrderingHoleAndPromote_steps _ J _ _).tails).after hsteps'
  split
  · exact ((claims_park hv hkeyv _ _).before (GroupSteps.one (.limit gk _)).tails).after hsteps'
  -- the job starts
  refine Claims.after hsteps.tails (ClaimOutcome.claims ?_)
  have hcharge : (chargeGroup v gk ((s.job J).cost.getD 1000) a.timestamp).core = u.core :=
    (core_chargeGroup v gk _ a.timestamp).trans hrefill
  unfold activateFromStream
  by_cases hreturning : 0 < n ∧ (s.job J).orderingSeq < n
  · have hseq : 0 < (s.job J).orderingSeq := by omega
    refine outcome_startAgain hu hkey' (by rwa [hjob]) (by rw [hjob, ← hnext hseq]; exact hreturning.2)
      hcharge true (fun _ => trivial) ?_
    simp only [hreturning, and_self, decide_true, if_true, not_true_eq_false, and_false, if_false]
    exact core_activate _ _ _ _
  · refine outcome_startFirst hu hkey' ?_ ?_ hcharge ?_
    · rw [hjob]
      rcases Nat.eq_zero_or_pos (s.job J).orderingSeq with hz | hseq
      · exact Or.inl hz
      · have := hnext hseq
        omega
    · simp only [hreturning, decide_false, Bool.false_eq_true, not_false_eq_true, and_true] at hfull
      omega
    · simp only [hreturning, decide_false, hjob, Bool.false_eq_true, not_false_eq_true, and_true,
        if_false]
      rw [core_activate]
      unfold startInGroup
      split <;> rfl

theorem fetchStream_steps (s : Queue) (a : FetchArgs) (listsEmpty : Bool) :
    ClaimSteps streamMode s (fetchStream s a listsEmpty).1 := by
  unfold fetchStream
  obtain ⟨hsteps, hpick⟩ := streamPhase_steps a listsEmpty 3 s
  split
  · rename_i heq
    rwa [heq] at hsteps
  · rename_i t J e heq
    rw [heq] at hsteps hpick
    have h : Claimable streamMode J (some e) t := hpick J e rfl
    split
    · rename_i gk hkey
      exact hsteps.trans (fetchStreamInGroup_claims h hkey).steps
    · rename_i hkey
      exact hsteps.trans (claims_start h (Or.inl hkey) _ _).steps

/-- The jobs that a fetch can pop: up to three from each list. -/
def Queue.withinReach (s : Queue) (k : ListKey) : List JobId := (s.list k).reverse.take 3

theorem fetchNextForChain_steps (s : Queue) (a : FetchArgs) :
    FetchSteps s.withinReach s (fetchNextForChain s a).1 := by
  unfold fetchNextForChain
  split
  · exact .refl
  have hfetch (u : Queue) (J : JobId) := fetchPriority_cases u a J
  have hpriority : FetchSteps s.withinReach s (listPhase .priority (fetchPriority · a) 3 s).1 :=
    listPhase_steps .priority hfetch 3 s fun _ hJ => hJ
  have hlists := listPhase_list .priority .lifo hfetch (by simp) 3 s
  split
  · rename_i heq
    rwa [heq] at hpriority
  rename_i t priorityEmpty heq
  rw [heq] at hpriority hlists
  have hlifo : FetchSteps s.withinReach t (listPhase .lifo (fetchLifo · a) 3 t).1 := by
    refine listPhase_steps .lifo (fun u J => fetchLifo_cases u a J) 3 t fun J hJ => ?_
    rwa [hlists] at hJ
  split
  · rename_i heq'
    rw [heq'] at hlifo
    exact hpriority.trans hlifo
  · rename_i heq'
    rw [heq'] at hlifo
    exact (hpriority.trans hlifo).trans (fetchStream_steps _ a _).fetches

end GlideMq
