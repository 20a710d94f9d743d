import GlideMq.Proofs.JobSteps

/-!
# Removed jobs stay gone

A call that finds no hash under an id leaves it so, unless it is an add that takes the id. There is
one exception: a promotion writes the state of each due member's job, whether or not the job is
there.
-/

namespace GlideMq

open Queue Redis

section

variable {s₀ s t u : Queue} {c : Option Call} {h : Option JobId} {J : JobId}

/-- No due member names the job. -/
def NoDueMember (s : Queue) (c : Option Call) (J : JobId) : Prop :=
  ∀ member, TakesDue s c member → (splitMember member).1 ≠ J

theorem Why.exists_or_due {m : Move} (why : Why s₀ c s m) :
    s.jobs m.job ≠ none ∨ ∃ member, TakesDue s₀ c member ∧ (splitMember member).1 = m.job := by
  have hstate {K : JobId} {st : JobState} (hst : s.stateOf K = some st) :
      s.jobs K ≠ none := jobs_ne_none_of_stateOf hst
  cases why with
  | promote hq hst => exact Or.inl (hstate hst)
  | oversizeReturner hc hst =>
    rcases hst with hst | hst | hst <;> exact Or.inl (hstate hst)
  | promoteReturner hc hparked hret hfits hst =>
    rcases hst with hst | hst | hst <;> exact Or.inl (hstate hst)
  | expireParked hq hst => exact Or.inl (hstate hst)
  | complete hc ha hs hst hr =>
    refine Or.inl fun hnone => hst ?_
    simp [stateOf, hnone]
  | takeDue hc hp => exact Or.inr ⟨_, hc.1, rfl⟩
  | revoke hst he => rcases hst with hst | hst | hst <;> exact Or.inl (hstate hst)
  | reschedule hst he hsrc hp hc => rcases hst with hst | hst | hst <;> exact Or.inl (hstate hst)
  | postpone hst he hc => exact Or.inl (hstate hst)
  | waitForChildren hst he => exact Or.inl (hstate hst)
  | suspend hst he => exact Or.inl (hstate hst)
  | release hst => exact Or.inl (hstate hst)
  | releaseAtOnce hc hactive hst => rcases hst with hst | hst <;> exact Or.inl (hstate hst)
  | signal hst => exact Or.inl (hstate hst)
  | timeOut hst => exact Or.inl (hstate hst)
  | rateLimit hst hkey he => exact Or.inl (hstate hst)
  | rateLimitFail hst he => exact Or.inl (hstate hst)
  | park hst hj hkey he => exact Or.inl hj
  | refuse hst hj he => exact Or.inl hj
  | start hst hj hkey => exact Or.inl hj
  | startFirst hst hj hkey hnext hfull => exact Or.inl hj
  | startAgain inQueue hst hj hkey hseq hnext => exact Or.inl hj
  | oversize hq hj hcap hcost => exact Or.inl hj
  | retry hc ha hs hj hagain => exact Or.inl hj
  | fail hc ha hs hj hr => exact Or.inl hj
  | stallOut hc hj => exact Or.inl hj
  | expireStalled hc hj hst => exact Or.inl hj
  | redispatch hc hj hp he => exact Or.inl hj
  | expireDue hc hj hst => exact Or.inl hj
  | defer hc hs hj hp => exact Or.inl hj
  | revokeParked hc hj => exact Or.inl hj

/-- A step writes no hash that is not there. -/
theorem QStep.stays_gone {x y : Cfg} (hstep : QStep s₀ c x y) (hc : ¬ Creates s₀ c J)
    (hdue : NoDueMember s₀ c J) (hgone : x.2.jobs J = none) : y.2.jobs J = none := by
  cases hstep.job_change J with
  | same hst hj => exact hj.mpr hgone
  | moved why hm hst =>
    subst hm
    rcases why.exists_or_due with hj | ⟨member, hmember, hname⟩
    · exact absurd hgone hj
    · exact absurd hname (hdue member hmember)
  | gone hj => exact hj
  | retried hcall hmem hj hst => exact absurd hgone hj
  | created hcreates hst => exact absurd hcreates hc

theorem QSteps.stays_gone {x y : Cfg} (hsteps : QSteps s₀ c x y) (hc : ¬ Creates s₀ c J)
    (hdue : NoDueMember s₀ c J) (hgone : x.2.jobs J = none) : y.2.jobs J = none := by
  induction hsteps with
  | refl => exact hgone
  | tail _ hstep ih => exact hstep.stays_gone hc hdue ih

/-! ## Adds -/

def AddResult.newJob : AddResult → Option JobId
  | .added J => some J
  | _ => none

end

/-! ## Flows -/

/-- The jobs that the child loop makes. -/
def flowChildJobs (a : FlowArgs) (P : JobId) : List FlowChild → Sys → List (QueueName × JobId)
  | [], _ => []
  | c :: cs, S =>
    match allocateFlowId (S c.queue) c.customId with
    | (s, .added J) => (c.queue, J) :: flowChildJobs a P cs (afterChild a P S c s J)
    | _ => []

/-- The jobs that a flow makes, of a flow that stops on its way too. -/
def flowJobs (S : Sys) (a : FlowArgs) : List (QueueName × JobId) :=
  if a.parent.opts.exceeds then []
  else if maxPriority < a.parent.priority then []
  else
    match a.children.find? (fun c => maxPriority < c.priority ∨ c.opts.exceeds) with
    | some _ => []
    | none =>
      match allocateFlowId (S a.queue) a.parent.customId with
      | (s, .added P) =>
        let S := Function.update S a.queue s
        if childIdsTaken S a.queue P a.children [] then []
        else
          (a.queue, P) ::
            flowChildJobs a P a.children (onQueue S a.queue fun s => createFlowParent s P a.parent)
      | _ => []

section

variable {S : Sys} {q : QueueName} {J : JobId} {o : Option Job}

theorem update_jobs_eq {p : QueueName} {t : Queue} (hj : (S q).jobs J = o)
    (ht : q = p → t.jobs J = o) : (Function.update S p t q).jobs J = o := by
  rw [Function.update_apply]
  split
  · rename_i h
    exact ht h
  · exact hj

theorem allocated_jobs_eq {p : QueueName} {c : Option JobId} (hj : (S q).jobs J = o) :
    (Function.update S p (allocateFlowId (S p) c).1 q).jobs J = o := by
  refine update_jobs_eq hj ?_
  rintro rfl
  rw [(allocateFlowId_allocates _ _).jobs]
  exact hj

theorem afterChild_jobs_of_not_new {a : FlowArgs} {P : JobId} {c : FlowChild} {s : Queue} {K : JobId}
    (hr : allocateFlowId (S c.queue) c.customId = (s, .added K)) (hne : (q, J) ≠ (c.queue, K))
    (hj : (S q).jobs J = o) : (afterChild a P S c s K q).jobs J = o := by
  have halloc := allocateFlowId_allocates (S c.queue) c.customId
  rw [hr] at halloc
  have hchild : (Function.update S c.queue
      (createFlowChild s K c a.queue P a.parent.timestamp a.parent.serverNow) q).jobs J = o := by
    refine update_jobs_eq hj ?_
    rintro rfl
    have hJ : J ≠ K := fun hJ => hne (by rw [hJ])
    rw [createFlowChild_jobs_of_ne hJ, halloc.jobs]
    exact hj
  refine update_jobs_eq hchild ?_
  rintro rfl
  exact hchild

theorem addFlowChildren_jobs_of_not_new (a : FlowArgs) (P : JobId) (cs : List FlowChild) (S : Sys)
    (ids : List JobId) (hnew : (q, J) ∉ flowChildJobs a P cs S) (hj : (S q).jobs J = o) :
    ((addFlowChildren a P cs S ids).1 q).jobs J = o := by
  induction cs generalizing S ids with
  | nil => exact hj
  | cons c cs ih =>
    have hrest := allocated_jobs_eq (p := c.queue) (c := c.customId) hj
    rw [flowChildJobs] at hnew
    rw [addFlowChildren]
    rcases hr : allocateFlowId (S c.queue) c.customId with ⟨s, r⟩
    rw [hr] at hnew hrest
    cases r with
    | added K =>
      simp only [List.mem_cons, not_or] at hnew
      exact ih _ _ hnew.2 (afterChild_jobs_of_not_new hr hnew.1 hj)
    | _ => exact hrest

theorem foldl_saddDeps_jobs (s : Queue) (P : JobId) (ms : List DepMember) :
    (ms.foldl (fun s m => s.saddDeps P m) s).jobs = s.jobs := by
  induction ms generalizing s with
  | nil => rfl
  | cons m ms ih => exact ih (s.saddDeps P m)

theorem addFlow_jobs_of_not_new {a : FlowArgs} (hnew : (q, J) ∉ flowJobs S a)
    (hj : (S q).jobs J = o) : ((addFlow S a).1 q).jobs J = o := by
  have hrest := allocated_jobs_eq (p := a.queue) (c := a.parent.customId) hj
  have halloc := allocateFlowId_allocates (S a.queue) a.parent.customId
  revert hnew
  unfold addFlow flowJobs
  split
  · exact fun _ => hj
  split
  · exact fun _ => hj
  generalize a.children.find? _ = bad
  cases bad with
  | some c => exact fun _ => hj
  | none =>
    rcases hr : allocateFlowId (S a.queue) a.parent.customId with ⟨s, r⟩
    rw [hr] at hrest halloc
    cases r with
    | added P =>
      simp only
      split
      · exact fun _ => hrest
      intro hnew
      simp only [List.mem_cons, not_or] at hnew
      have hparent : (onQueue (Function.update S a.queue s) a.queue (createFlowParent · P a.parent)
          q).jobs J = o := by
        refine update_jobs_eq hrest ?_
        rintro rfl
        have hne : J ≠ P := fun hJ => hnew.1 (by rw [hJ])
        rw [Function.update_self, createFlowParent_jobs, Function.update_of_ne hne, halloc.jobs]
        exact hj
      have hchildren := addFlowChildren_jobs_of_not_new a P a.children _ [] hnew.2 hparent
      split
      · rename_i heq
        rw [heq] at hchildren
        refine update_jobs_eq hchildren ?_
        rintro rfl
        rw [foldl_saddDeps_jobs]
        exact hchildren
      · exact hchildren
    | _ => exact fun _ => hrest

theorem registerParent_not_creates {child parent : DepMember} (s : Queue) (J : JobId) :
    ¬ Creates s (some (.completeChild parent.job child)) J := by
  rintro (h | ⟨a, h, -⟩ | ⟨a, h, -⟩) <;> cases h

theorem registerParent_stays_gone (child parent : DepMember) (hgone : (S q).jobs J = none) :
    ((registerParent S child parent).1 q).jobs J = none := by
  have hsteps := registerParent_steps (some (.completeChild parent.job child)) S child parent q
  refine hsteps.stays_gone (registerParent_not_creates _ _) ?_ hgone
  rintro member ⟨now, serverNow, hcall, -⟩
  cases hcall

/-! ## Runs -/

/-- The jobs that a call makes. -/
def SysCall.newJobs (S : Sys) : SysCall → List (QueueName × JobId)
  | .on q (.addJob a) => ((addJob (S q) a).2.newJob.map (q, ·)).toList
  | .on q (.dedup a) => ((dedup (S q) a).2.newJob.map (q, ·)).toList
  | .addFlow a => flowJobs S a
  | _ => []

/-- The call is no promotion that finds a due member of the job. -/
def SysCall.leavesGone (S : Sys) (q : QueueName) (J : JobId) (call : SysCall) : Prop :=
  NoDueMember (S q) (call.at q) J

theorem sysStep_stays_gone {call : SysCall} (hdue : call.leavesGone S q J)
    (hnew : (q, J) ∉ call.newJobs S) (hgone : (S q).jobs J = none) :
    (sysStep S call q).jobs J = none := by
  cases call with
  | addFlow a => exact addFlow_jobs_of_not_new hnew hgone
  | registerParent child parent => exact registerParent_stays_gone child parent hgone
  | on p c =>
    refine update_jobs_eq hgone ?_
    rintro rfl
    have hdue : NoDueMember (S q) (some c) J := by
      simpa [SysCall.leavesGone, SysCall.at] using hdue
    refine (call_qsteps (S q) c).stays_gone ?_ hdue hgone
    rintro (hnone | ⟨a, heq, hJ⟩ | ⟨a, heq, hJ⟩)
    · cases hnone
    · cases heq
      simp [SysCall.newJobs, AddResult.newJob, hJ] at hnew
    · cases heq
      simp [SysCall.newJobs, AddResult.newJob, hJ] at hnew

end

end GlideMq
