import GlideMq.Proofs.GoneJobs

/-!
# Ended jobs

A job that has ended, or is gone, stays so through a call, unless the call makes a job under the id
or brings the old one back. A few calls bring back whatever job they are given: they look whether
its hash is there, or not even that, but not at its state.
-/

namespace GlideMq

open Queue Redis

/-- The job is gone, or it is completed or failed. -/
def Ended (s : Queue) (J : JobId) : Prop :=
  s.jobs J = none ∨ ∃ st, s.stateOf J = some st ∧ st.terminal

/-- The call puts the job back, whatever state it is in. -/
inductive Revives (s : Queue) (c : Option Call) : JobId → Prop
  | retry {call a} (hc : c = some call) (ha : call.failing = some a) (hj : s.jobs a.jobId ≠ none)
      (hagain : call.requeues s) : Revives s c a.jobId
  | defer {a} (hc : c = some (.deferActive a)) (hj : s.jobs a.jobId ≠ none) : Revives s c a.jobId
  | takeDue {member} (hc : Promotes s c member) : Revives s c (splitMember member).1
  | redispatch {J} (hc : Redispatches s c J) : Revives s c J

/-- The calls that may put an ended job back. -/
def Call.mayRevive : Call → Bool
  | .fail _ _ | .failAndFetchNext _ _ | .deferActive _ | .promote _ _ | .reclaimStalled _ _
  | .reclaimStalledListJobs _ _ => true
  | _ => false

section

variable {s₀ s t : Queue} {c : Option Call} {J : JobId}

theorem Revives.call (h : Revives s c J) : ∃ call, c = some call ∧ call.mayRevive := by
  cases h with
  | @retry call a hc ha hj hagain =>
    refine ⟨call, hc, ?_⟩
    cases call <;> first | rfl | cases ha
  | defer hc hj => exact ⟨_, hc, rfl⟩
  | takeDue hc =>
    obtain ⟨⟨now, serverNow, hc, -⟩, -⟩ := hc
    exact ⟨_, hc, rfl⟩
  | redispatch hc =>
    obtain ⟨⟨a, visited, hc, -⟩ | ⟨a, scan, hc, -⟩, -⟩ := hc
    · exact ⟨_, hc, rfl⟩
    · exact ⟨_, hc, rfl⟩

theorem Ended.stateOf_ne (h : Ended s J) {st : JobState} (hst : st.terminal = false) :
    s.stateOf J ≠ some st := by
  intro heq
  rcases h with hgone | ⟨st', heq', hterm⟩
  · exact jobs_ne_none_of_stateOf heq hgone
  · rw [heq] at heq'
    cases heq'
    rw [hst] at hterm
    cases hterm

theorem Ended.not_activatable (h : Ended s J) (hj : s.jobs J ≠ none) :
    isActivatable (s.stateOf J) = false := by
  rcases h with hgone | ⟨st, hst, hterm⟩
  · exact absurd hgone hj
  · rw [hst]
    cases st <;> simp_all [isActivatable, JobState.terminal]

theorem Why.ends {m : Move} (why : Why s₀ c s m) (h₀ : Ended s₀ m.job) (h : Ended s m.job)
    (hrev : ¬ Revives s₀ c m.job) : m.state.terminal := by
  -- A job that has ended moves to another end, unless the call puts it back.
  have hlive {u : Queue} {K : JobId} {st : JobState} (hu : Ended u K) (hst : u.stateOf K = some st)
      (hterm : st.terminal = false) : False := hu.stateOf_ne hterm hst
  have hact {K : JobId} (hK : Ended s K) (hj : s.jobs K ≠ none)
      (hst : isActivatable (s.stateOf K)) : False := by
    rw [hK.not_activatable hj] at hst
    cases hst
  cases why with
  | park hst hj hkey he => exact (hact h hj hst).elim
  | start hst hj hkey => exact (hact h hj hst).elim
  | startFirst hst hj hkey hnext hfull => exact (hact h hj hst).elim
  | startAgain inQueue hst hj hkey hseq hnext => exact (hact h hj hst).elim
  | promote hq hst => exact (hlive h hst rfl).elim
  | promoteReturner hc hparked hret hfits hst => exact (hlive h₀ hparked rfl).elim
  | retry hc ha hs hj hagain =>
    refine absurd (.retry hc ha ?_ hagain) hrev
    rwa [Ne, ← jobs_none_of_life hs]
  | redispatch hc hj hp he => exact absurd (.redispatch hc) hrev
  | takeDue hc hp => exact absurd (.takeDue hc) hrev
  | defer hc hs hj hp =>
    refine absurd (.defer hc ?_) hrev
    rwa [Ne, ← jobs_none_of_life hs]
  | reschedule hst he hsrc hp hc =>
    rcases hst with hst | hst | hst <;> exact (hlive h hst rfl).elim
  | postpone hst he hc => exact (hlive h hst rfl).elim
  | waitForChildren hst he => exact (hlive h hst rfl).elim
  | suspend hst he => exact (hlive h hst rfl).elim
  | release hst => exact (hlive h hst rfl).elim
  | releaseAtOnce hc hactive hst => exact (hlive h₀ hactive rfl).elim
  | signal hst => exact (hlive h hst rfl).elim
  | rateLimit hst hkey he => exact (hlive h hst rfl).elim
  | _ => rfl

theorem QStep.stays_ended {x y : Cfg} (hstep : QStep s₀ c x y) (hcreate : ¬ Creates s₀ c J)
    (hretry : ¬ Retries c) (hrev : ¬ Revives s₀ c J) (h₀ : Ended s₀ J) (h : Ended x.2 J) :
    Ended y.2 J := by
  cases hstep.job_change J with
  | same hst hj =>
    rcases h with hgone | hended
    · exact Or.inl (hj.mpr hgone)
    · exact Or.inr (hst ▸ hended)
  | moved why hm hst =>
    subst hm
    exact Or.inr ⟨_, hst, why.ends h₀ h hrev⟩
  | gone hj => exact Or.inl hj
  | retried hcall hmem hj hst => exact absurd hcall hretry
  | created hcreates hst => exact absurd hcreates hcreate

theorem QSteps.stays_ended {x y : Cfg} (hsteps : QSteps s₀ c x y) (hcreate : ¬ Creates s₀ c J)
    (hretry : ¬ Retries c) (hrev : ¬ Revives s₀ c J) (h₀ : Ended s₀ J) (h : Ended x.2 J) :
    Ended y.2 J := by
  induction hsteps with
  | refl => exact h
  | tail _ hstep ih => exact hstep.stays_ended hcreate hretry hrev h₀ ih

/-! ## States -/

/-- The hash has a state. -/
def Stated (s : Queue) (J : JobId) : Prop := s.jobs J = none ∨ s.stateOf J ≠ none

theorem QStep.stays_stated {x y : Cfg} (hstep : QStep s₀ c x y) (h : Stated x.2 J) :
    Stated y.2 J := by
  have hstate {st : JobState} (hst : y.2.stateOf J = some st) : Stated y.2 J :=
    Or.inr (by rw [hst]; simp)
  cases hstep.job_change J with
  | same hst hj =>
    rcases h with hgone | hst'
    · exact Or.inl (hj.mpr hgone)
    · exact Or.inr (hst ▸ hst')
  | moved why hm hst => exact hstate hst
  | gone hj => exact Or.inl hj
  | retried hcall hmem hj hst => exact hstate hst
  | created hcreates hst => exact hstate hst

theorem QSteps.stays_stated {x y : Cfg} (hsteps : QSteps s₀ c x y) (h : Stated x.2 J) :
    Stated y.2 J := by
  induction hsteps with
  | refl => exact h
  | tail _ hstep ih => exact hstep.stays_stated ih

theorem Stated.ended (h : Stated s J) (hended : ended (s.stateOf J)) : Ended s J := by
  rcases h with hgone | hst
  · exact Or.inl hgone
  · obtain ⟨st, hst⟩ := Option.ne_none_iff_exists'.mp hst
    rw [hst] at hended
    refine Or.inr ⟨st, hst, ?_⟩
    cases st <;> simp_all [GlideMq.ended, JobState.terminal]

end

/-! ## Calls on the server -/

section

variable {S : Sys} {q : QueueName} {J : JobId}

theorem SysCall.not_creates {call : SysCall} (hnew : (q, J) ∉ call.newJobs S) {c : Call}
    (hc : call.at q = some c) : ¬ Creates (S q) (some c) J := by
  cases call with
  | addFlow a => cases hc
  | registerParent child parent => cases hc
  | on p d =>
    simp only [SysCall.at] at hc
    split at hc
    · rename_i hp
      subst hp
      cases hc
      rintro (hnone | ⟨a, heq, hJ⟩ | ⟨a, heq, hJ⟩)
      · cases hnone
      · cases heq
        simp [SysCall.newJobs, AddResult.newJob, hJ] at hnew
      · cases heq
        simp [SysCall.newJobs, AddResult.newJob, hJ] at hnew
    · cases hc

theorem sysStep_stays_ended {call : SysCall} (hnew : (q, J) ∉ call.newJobs S)
    (hretry : ¬ Retries (call.at q)) (hrev : ¬ Revives (S q) (call.at q) J) (h : Ended (S q) J) :
    Ended (sysStep S call q) J := by
  cases call with
  | addFlow a =>
    have hj := addFlow_jobs_of_not_new hnew rfl
    unfold Ended Queue.stateOf
    rwa [show (sysStep S (.addFlow a) q).jobs J = (S q).jobs J from hj]
  | registerParent child parent =>
    have hsteps := registerParent_steps (some (.completeChild parent.job child)) S child parent q
    refine hsteps.stays_ended (registerParent_not_creates _ _) ?_ ?_ h h
    · rintro (⟨_, _, hc⟩ | ⟨_, _, hc⟩) <;> cases hc
    · intro hrevives
      obtain ⟨c, hc, hmay⟩ := hrevives.call
      cases hc
      cases hmay
  | on p c =>
    have hsteps := sysStep_qsteps S (.on p c) q
    cases hat : SysCall.at (.on p c) q with
    | some d =>
      rw [hat] at hsteps hretry hrev
      exact hsteps.stays_ended (SysCall.not_creates hnew hat) hretry hrev h h
    | none =>
      have hp : ¬ p = q := by
        intro hp
        simp [SysCall.at, hp] at hat
      rwa [sysStep, onQueue, Function.update_of_ne (Ne.symm hp)]

theorem sysStep_stays_stated {call : SysCall} (h : Stated (S q) J) : Stated (sysStep S call q) J :=
  (sysStep_qsteps S call q).stays_stated h

end

end GlideMq
