import GlideMq.Proofs.EndedJobs

/-!
# One live job for a deduplication id

The entry of a deduplication id names the job that was added last under it. As long as no call
brings back an ended job of that id, the entry names the only one that may be live.
-/

namespace GlideMq

open Queue Redis

/-! ## The entry -/

section

variable {s₀ s t : Queue} {c : Option Call} {d : String} {J : JobId}

theorem doSlot_dedup (s : Queue) (J : JobId) (slot : Slot) : (s.doSlot J slot).dedup = s.dedup := by
  cases slot with
  | leave => rfl
  | retain => rfl
  | release hint =>
    change (afterRelease s J hint).dedup = s.dedup
    unfold afterRelease
    split <;> rfl
  | closeHole =>
    unfold doSlot closeOrderingHole
    simp only
    repeat' split
    all_goals rfl
  | undo =>
    unfold doSlot undoClaim
    simp only
    split <;> rfl
  | take gk => rfl

theorem ackDel_dedup (s : Queue) (group : Group) (e : Option Nat) :
    (ackDel s group e).dedup = s.dedup := by
  cases e <;> rfl

theorem takeFrom_dedup (s : Queue) (J : JobId) (src : Source) :
    (s.takeFrom J src).dedup = s.dedup := by
  cases src <;> rfl

theorem put_dedup (s : Queue) (J : JobId) (p : Place) : (s.put J p).dedup = s.dedup := by
  cases p <;> rfl

theorem detach_dedup (m : Move) (s : Queue) : (m.detach s).dedup = s.dedup := by
  have hfold (l : List Source) (q : Queue) : (l.foldl (·.takeFrom m.job) q).dedup = q.dedup := by
    induction l generalizing q with
    | nil => rfl
    | cons src l ih => exact (ih _).trans (takeFrom_dedup q m.job src)
  exact (hfold _ _).trans (ackDel_dedup s m.group m.entry)

theorem apply_dedup (m : Move) (s : Queue) : (m.apply s).dedup = s.dedup := by
  unfold Move.apply
  rw [doSlot_dedup]
  exact (put_dedup _ _ _).trans (detach_dedup m s)

theorem withdraw_dedup (m : Move) (s : Queue) : (m.withdraw s).dedup = s.dedup :=
  (doSlot_dedup _ _ _).trans (detach_dedup m s)

theorem dedup_of_life (h : t.life = s.life) : t.dedup = s.dedup :=
  key_of_life (·.dedup) (fun _ => rfl) h

/-- The call is an add under the id that adds a job. -/
def AddsUnder (s : Queue) (c : Option Call) (d : String) : Prop :=
  ∃ a J, c = some (.dedup a) ∧ a.dedupId = d ∧ (dedup s a).2 = .added J

theorem QStep.keeps_entry {x y : Cfg} (hstep : QStep s₀ c x y) (hadds : ¬ AddsUnder s₀ c d) :
    y.2.dedup d = x.2.dedup d := by
  cases hstep with
  | quiet ht => exact congrFun (dedup_of_life ht) d
  | @move h h' s t m why hh ht => exact congrFun ((dedup_of_life ht).trans (apply_dedup m s)) d
  | @skip h s gk =>
    unfold skipToNext
    simp only
    repeat' split
    all_goals rfl
  | @tombstone h s gk K x hq hj =>
    unfold consumeOrderedTombstone
    split
    · rfl
    · simp only [setNextSeq, advancePastSkips, hgroup_dedup]
      unfold markOrderingDone
      simp only
      repeat' split
      all_goals rfl
  | @ack h s K group e hst he => exact congrFun (ackDel_dedup s group e) d
  | @take s t m why ht => exact congrFun ((dedup_of_life ht).trans (withdraw_dedup m s)) d
  | @empty s K src hsrc => exact congrFun (takeFrom_dedup s K src) d
  | @unend h s K t hst => cases t <;> rfl
  | @sweep h s K t hmem => cases t <;> rfl
  | @drain h s t K hcall ht =>
    refine (congrFun (dedup_of_life ht) d).trans ?_
    exact congrFun (doSlot_dedup s K .closeHole) d
  | clearList k hall => cases k <;> rfl
  | @pop s k K hlast hreach hcall => cases k <;> rfl
  | @reserve h s k K hlast => cases k <;> rfl
  | @retry h s t K timestamp hcall hmem hj ht =>
    refine (congrFun (dedup_of_life ht) d).trans ?_
    unfold retryFailedJob issueSeq
    simp only
    split <;> rfl
  | @create s t K n hcreates hn hfree ht =>
    refine (congrFun (dedup_of_life ht) d).trans ?_
    unfold Queue.create issueSeq
    cases n.key <;> rfl
  | @record h s a K x hcall hJ =>
    have hne : d ≠ a.dedupId := fun heq => hadds ⟨a, K, hcall, heq.symm, hJ⟩
    simp [hne]
  | @enqueue s K p st hst hp => exact congrFun (put_dedup s K p) d
  | _ => rfl

theorem QSteps.keeps_entry {x y : Cfg} (hsteps : QSteps s₀ c x y) (hadds : ¬ AddsUnder s₀ c d) :
    y.2.dedup d = x.2.dedup d := by
  induction hsteps with
  | refl => rfl
  | tail _ hstep ih => exact (hstep.keeps_entry hadds).trans ih

theorem dedup_entry {a : DedupArgs} (h : (dedup s a).2 = .added J) :
    (dedup s a).1.dedup a.dedupId = some (J, a.timestamp) := by
  have hadd (s : Queue) (replaced : Option (JobId × ChildParents))
      (h : (dedupAdd s a replaced).2 = .added J) :
      (dedupAdd s a replaced).1.dedup a.dedupId = some (J, a.timestamp) := by
    unfold dedupAdd at h ⊢
    rcases hr : allocateId s a.customJobId with ⟨t, r⟩
    rw [hr] at h
    cases r with
    | added K =>
      simp only [AddResult.added.injEq] at h
      subst h
      simp
    | duplicate => cases replaced <;> cases h
    | _ => cases h
  unfold dedup at h ⊢
  split
  · rename_i hprio
    simp [hprio] at h
  · split
    · rename_i hprio hcost
      simp [hprio, hcost] at h
    · rename_i hprio hcost
      rw [if_neg hprio, if_neg hcost] at h
      cases hdecision : dedupDecision s a with
      | skip => simp [hdecision] at h
      | add =>
        rw [hdecision] at h
        exact hadd s none h
      | replace K =>
        rw [hdecision] at h
        exact hadd _ _ h

/-- A simple add goes through only where the job that the entry names has ended. -/
theorem simple_dedup_ended {a : DedupArgs} {K : JobId} {x : Int} (h : (dedup s a).2 = .added J)
    (hmode : a.mode = .simple) (hentry : s.dedup a.dedupId = some (K, x)) : ended (s.stateOf K) := by
  by_contra hlive
  have hskip : dedupDecision s a = .skip := by
    unfold dedupDecision
    rw [hentry, hmode]
    simp [hlive]
  unfold dedup at h
  rw [hskip] at h
  split at h
  · cases h
  split at h <;> cases h

end

/-! ## Runs -/

/-- The job is in a state that is not its last. -/
def Live (s : Queue) (J : JobId) : Prop := ∃ st, s.stateOf J = some st ∧ st.terminal = false

/-- The queues, and a history: the jobs that were added under one deduplication id of one queue. -/
abbrev DedupRun := Sys × List JobId

/-- The job that the call adds under the id. -/
def SysCall.addedUnder (S : Sys) (q : QueueName) (d : String) : SysCall → Option JobId
  | .on p (.dedup a) => if p = q ∧ a.dedupId = d then (dedup (S p) a).2.newJob else none
  | _ => none

instance : LawfulBEq (QueueName × JobId) := inferInstance

/-- A job that is made in another way under an id in the history is not the one that was added. -/
def dedupStep (q : QueueName) (d : String) (x : DedupRun) (call : SysCall) : DedupRun :=
  (sysStep x.1 call,
    match call.addedUnder x.1 q d with
    | some J => J :: x.2
    | none => x.2.filter fun J => (q, J) ∉ call.newJobs x.1)

/-- The call retries no failed job of the queue, and is no add under the id in another mode. -/
def SysCall.simpleFor (q : QueueName) (d : String) (call : SysCall) : Prop :=
  ¬ Retries (call.at q) ∧ ∀ a, call.at q = some (.dedup a) → a.dedupId = d → a.mode = .simple

structure NamesLive (q : QueueName) (d : String) (x : DedupRun) : Prop where
  named : ∀ J ∈ x.2, Live (x.1 q) J → ∃ t, (x.1 q).dedup d = some (J, t)
  stated : ∀ J, Stated (x.1 q) J

section

variable {S : Sys} {q : QueueName} {d : String} {x : DedupRun} {call : SysCall} {J : JobId}

theorem Live.not_ended {s : Queue} (h : Live s J) : ¬ Ended s J := by
  intro hended
  obtain ⟨st, hst, hterm⟩ := h
  exact hended.stateOf_ne hterm hst

theorem Stated.live {s : Queue} (h : Stated s J) (hlive : ¬ Ended s J) : Live s J := by
  rcases h with hgone | hst
  · exact absurd (Or.inl hgone) hlive
  · obtain ⟨st, hst⟩ := Option.ne_none_iff_exists'.mp hst
    refine ⟨st, hst, ?_⟩
    by_contra hterm
    exact hlive (Or.inr ⟨st, hst, by simpa using hterm⟩)

theorem SysCall.addedUnder_eq_some (h : call.addedUnder S q d = some J) :
    ∃ a, call = .on q (.dedup a) ∧ a.dedupId = d ∧ (dedup (S q) a).2 = .added J := by
  unfold SysCall.addedUnder at h
  split at h
  · rename_i p a
    split at h
    · rename_i hp
      obtain ⟨rfl, hd⟩ := hp
      refine ⟨a, rfl, hd, ?_⟩
      unfold AddResult.newJob at h
      split at h
      · rename_i K hr
        cases h
        exact hr
      · cases h
    · cases h
  · cases h

theorem SysCall.addsUnder (h : AddsUnder (S q) (call.at q) d) :
    ∃ J, call.addedUnder S q d = some J := by
  obtain ⟨a, J, hc, hd, hJ⟩ := h
  cases call with
  | addFlow a => cases hc
  | registerParent child parent => cases hc
  | on p c =>
    simp only [SysCall.at] at hc
    split at hc
    · rename_i hp
      cases hc
      subst hp
      exact ⟨J, by simp [SysCall.addedUnder, hd, hJ, AddResult.newJob]⟩
    · cases hc

theorem NamesLive.step (h : NamesLive q d x) (hsimple : call.simpleFor q d)
    (hrev : ∀ J ∈ x.2, Ended (x.1 q) J → ¬ Revives (x.1 q) (call.at q) J) :
    NamesLive q d (dedupStep q d x call) := by
  have hstays {K : JobId} (hK : K ∈ x.2) (hnew : (q, K) ∉ call.newJobs x.1)
      (hlive : Live (sysStep x.1 call q) K) : Live (x.1 q) K := by
    refine (h.stated K).live fun hended => ?_
    exact hlive.not_ended (sysStep_stays_ended hnew hsimple.1 (hrev K hK hended) hended)
  refine ⟨fun K hK hlive => ?_, fun K => sysStep_stays_stated (h.stated K)⟩
  cases hadd : call.addedUnder x.1 q d with
  | none =>
    simp only [dedupStep, hadd, List.mem_filter, decide_eq_true_eq] at hK hlive ⊢
    obtain ⟨t, ht⟩ := h.named K hK.1 (hstays hK.1 hK.2 hlive)
    have hadds : ¬ AddsUnder (x.1 q) (call.at q) d := by
      intro hadds
      obtain ⟨J, hJ⟩ := SysCall.addsUnder hadds
      rw [hadd] at hJ
      cases hJ
    exact ⟨t, ((sysStep_qsteps x.1 call q).keeps_entry hadds).trans ht⟩
  | some J =>
    simp only [dedupStep, hadd, List.mem_cons] at hK hlive ⊢
    obtain ⟨a, rfl, hd, hJ⟩ := SysCall.addedUnder_eq_some hadd
    have hentry := dedup_entry hJ
    have hmode : a.mode = .simple := hsimple.2 a (by simp [SysCall.at]) hd
    by_cases hKJ : K = J
    · refine ⟨a.timestamp, ?_⟩
      rw [← hd, hKJ]
      simpa [sysStep, onQueue, Call.run] using hentry
    -- The other jobs have ended before the add, else the entry names one and the add is skipped.
    · have hold : K ∈ x.2 := hK.resolve_left hKJ
      have hlive₀ := hstays hold (by simp [SysCall.newJobs, hJ, AddResult.newJob, hKJ]) hlive
      obtain ⟨t, ht⟩ := h.named K hold hlive₀
      rw [← hd] at ht
      have hended := (h.stated K).ended (simple_dedup_ended hJ hmode ht)
      exact absurd hended hlive₀.not_ended

/-- From any server whose hashes have states: as long as no call brings back an ended job that was
added under the id, at most one job that was added under it is live. -/
theorem simple_dedup_one_live (hstated : ∀ J, Stated (S q) J) {calls : List SysCall}
    (hmeets : Machine.Meets (dedupStep q d)
      (fun x call => call.simpleFor q d ∧
        ∀ J ∈ x.2, Ended (x.1 q) J → ¬ Revives (x.1 q) (call.at q) J)
      (S, []) calls) :
    let x := Machine.run (dedupStep q d) (S, []) calls
    ∀ J ∈ x.2, ∀ K ∈ x.2, Live (x.1 q) J → Live (x.1 q) K → J = K := by
  intro x J hJ K hK hliveJ hliveK
  have hinv : NamesLive q d x := by
    refine Machine.invariant (fun y call hy hcall => hy.step hcall.1 hcall.2) ?_ hmeets
    exact ⟨fun J hJ => absurd hJ List.not_mem_nil, hstated⟩
  obtain ⟨t, ht⟩ := hinv.named J hJ hliveJ
  obtain ⟨t', ht'⟩ := hinv.named K hK hliveK
  rw [ht] at ht'
  exact congrArg Prod.fst (Option.some.inj ht')

end

def dedupOnce (timestamp : Int) : SysCall :=
  .on "q" (.dedup { dedupId := "k", mode := .simple, timestamp, serverNow := timestamp })

/-- A retry keeps the job live, and the next add is skipped. -/
theorem simple_dedup_one_live_after_retry :
    let x := Machine.run (dedupStep "q" "k") (emptySys, [])
      [dedupOnce 1,
       .on "q" (.fail
        { jobId := "1", entryId := some 1, timestamp := 2, serverNow := 2, maxAttempts := 3,
          group := "g" } false),
       dedupOnce 3]
    ∀ J ∈ x.2, ∀ K ∈ x.2, Live (x.1 "q") J → Live (x.1 "q") K → J = K := by
  have hsimple (timestamp : Int) : (dedupOnce timestamp).simpleFor "q" "k" := by
    refine ⟨?_, ?_⟩
    · rintro (⟨count, t, hc⟩ | ⟨J, t, hc⟩) <;> cases hc
    · intro a hc hd
      cases hc
      rfl
  have hquiet {s : Queue} {J : JobId} (timestamp : Int) :
      ¬ Revives s ((dedupOnce timestamp).at "q") J := by
    intro hrevives
    obtain ⟨c, hc, hmay⟩ := hrevives.call
    cases hc
    cases hmay
  refine simple_dedup_one_live (fun J => Or.inl rfl)
    ⟨⟨hsimple 1, fun J _ _ => hquiet 1⟩, ⟨⟨?_, ?_⟩, ?_⟩, ⟨hsimple 3, fun J _ _ => hquiet 3⟩, trivial⟩
  · rintro (⟨count, t, hc⟩ | ⟨J, t, hc⟩) <;> cases hc
  · intro a hc
    cases hc
  · intro J hJ hended
    have hlist : (dedupStep "q" "k" (emptySys, []) (dedupOnce 1)).2 = ["1"] := by decide +kernel
    rw [hlist, List.mem_singleton] at hJ
    subst hJ
    exact absurd (by decide +kernel) (@Ended.stateOf_ne _ _ hended .waiting rfl)

/-- The first worker on a stalled job fails it after the second one has completed it and the next
add has gone through. -/
def lateFailure : List SysCall :=
  [dedupOnce 1,
   .on "q" (.readGroup "g" "a"),
   .on "q" (.moveToActive
     { jobId := "1", entryId := some 1, group := "g", timestamp := 2, serverNow := 2 }),
   .on "q" (.reclaimStalled
     { group := "g", consumer := "b", minIdleMs := 0, timestamp := 60, serverNow := 60 }
     fun _ => true),
   .on "q" (.readGroup "g" "b"),
   .on "q" (.moveToActive
     { jobId := "1", entryId := some 2, group := "g", timestamp := 61, serverNow := 61 }),
   .on "q" (.complete
     { jobId := "1", entryId := some 2, timestamp := 62, serverNow := 62, group := "g" }),
   dedupOnce 63,
   .on "q" (.fail
     { jobId := "1", entryId := some 1, timestamp := 64, serverNow := 64, maxAttempts := 3,
       group := "g" } false)]

theorem simple_dedup_two_live :
    let x := Machine.run (dedupStep "q" "k") (emptySys, []) lateFailure
    ¬ ∀ J ∈ x.2, ∀ K ∈ x.2, Live (x.1 "q") J → Live (x.1 "q") K → J = K := by
  intro x hone
  have hadded : x.2 = ["2", "1"] := by decide +kernel
  have hfirst : (x.1 "q").stateOf "1" = some .delayed := by decide +kernel
  have hsecond : (x.1 "q").stateOf "2" = some .waiting := by decide +kernel
  rw [hadded] at hone
  have heq := hone "1" (by simp) "2" (by simp) ⟨_, hfirst, rfl⟩ ⟨_, hsecond, rfl⟩
  exact absurd heq (by decide)

end GlideMq
