import GlideMq.Proofs.ParentFrame
import GlideMq.Proofs.Steps

/-!
# Calls as runs of steps

What the shared parts of the calls do, step by step: promotion in a group, claims, fetches, and the
bookkeeping of parents.
-/

namespace GlideMq

open Queue Redis

section

variable {s₀ : Queue} {c : Option Call} {h : Option JobId} {s t u : Queue}

theorem QSteps.of_life (ht : t.life = s.life) : QSteps s₀ c (h, s) (h, t) := .single (.quiet ht)

theorem QSteps.of_core (ht : t.core = s.core) : QSteps s₀ c (h, s) (h, t) :=
  .of_life (life_of_core ht)

/-- The end of a run is determined up to what a life does not see. -/
theorem QSteps.quiet {x : Cfg} (hs : QSteps s₀ c x (h, s)) (ht : t.life = s.life) :
    QSteps s₀ c x (h, t) := hs.tail (.quiet ht)

theorem QSteps.move {m : Move} (why : Why s₀ c s m) (ht : t.life = (m.apply s).life) :
    QSteps s₀ c (h, s) (h, t) := .single (.move why (Or.inl rfl) ht)

/-! ## Groups -/

theorem life_endFailed (s : Queue) (J : JobId) (x : Int) (r : String) (y : Int) :
    (endFailed s J x r y).life = ((s.zaddFailed J x).setState J .failed).life := by
  unfold endFailed setFailed setState
  rw [life_hset, life_hset]
  rfl

theorem GroupStep.qstep (hstep : GroupStep s t) : QStep s₀ c (h, s) (h, t) := by
  cases hstep with
  | quiet ht => exact .quiet (life_of_core ht)
  | limit gk x => exact .limit gk x
  | skip gk => exact .skip gk
  | tombstone hq hj => exact .tombstone hq hj
  | drop hq hst => exact .unpark hq hst
  | putBack hq x => exact .repark hq x
  | promote hq hst => exact .move (.promote hq hst) (Or.inl rfl) rfl
  | @failParked gk J t x r y hq hj hcap hcost ht =>
    refine .move (.oversize (x := x) hq hj hcap hcost) (Or.inl rfl) ((life_of_core ht).trans ?_)
    exact life_closeOrderingHole (life_endFailed _ J x r y) J

theorem GroupSteps.qsteps (hsteps : GroupSteps s t) : QSteps s₀ c (h, s) (h, t) :=
  hsteps.keeps (I := fun u => QSteps s₀ c (h, s) (h, u)) (fun _ _ hstep hs => hs.tail hstep.qstep)
    .refl

theorem release_qsteps (s : Queue) (J : JobId) (now serverNow : Int) (hint : Option GroupKey) :
    QSteps s₀ c (h, afterRelease s J hint)
      (h, releaseGroupSlotAndPromote s J now serverNow hint false) :=
  (releaseGroupSlotAndPromote_steps s J now serverNow hint).qsteps

theorem closeHole_qsteps (s : Queue) (J : JobId) (now serverNow : Int) :
    QSteps s₀ c (h, closeOrderingHole s J) (h, closeOrderingHoleAndPromote s J now serverNow) :=
  (closeOrderingHoleAndPromote_steps s J now serverNow).qsteps

/-! ## Claims -/

/-- What a claim's mode says about the call. -/
structure ClaimMode.Of (M : ClaimMode) (s₀ : Queue) (c : Option Call) (J : JobId) : Prop where
  own : OwnEntry s₀ c → M.ownEntries
  ungated : M.ungated → J ∈ s₀.lifoList

theorem ClaimTail.qstep {M : ClaimMode} (hM : OwnEntry s₀ c → M.ownEntries)
    (hstep : ClaimTail M s t) : QStep s₀ c (h, s) (h, t) := by
  cases hstep with
  | group hstep => exact hstep.qstep
  | ack hst hW => exact .ack (Or.inr (Or.inl hst)) fun hown => hW (hM hown)

theorem ClaimTails.qsteps {M : ClaimMode} (hM : OwnEntry s₀ c → M.ownEntries)
    (hsteps : ClaimTails M s t) : QSteps s₀ c (h, s) (h, t) :=
  hsteps.keeps (I := fun u => QSteps s₀ c (h, s) (h, u))
    (fun _ _ hstep hs => hs.tail (hstep.qstep hM)) .refl

theorem ClaimOutcome.qstep {M : ClaimMode} {J : JobId} {h' : Option JobId} (hM : M.Of s₀ c J)
    (ho : ClaimOutcome M J s t) (hh : h' = h ∨ h = some J ∧ h' = none) :
    QStep s₀ c (h, s) (h', t) := by
  cases ho with
  | @park gk group e x t hst hj hkey hW ht =>
    have hwhy : Why s₀ c s
        { job := J, group, entry := e, place := .groupq gk x, state := .groupWaiting } :=
      .park hst hj hkey fun hown => hW (hM.own hown)
    exact .move hwhy hh (life_of_core ht)
  | @fail group e x r y t hst hj hW ht =>
    have hwhy : Why s₀ c s
        { job := J, group, entry := e, place := .failed x, state := .failed, slot := .closeHole } :=
      .refuse hst hj fun hown => hW (hM.own hown)
    refine .move hwhy hh ((life_of_core ht).trans ?_)
    exact life_closeOrderingHole (life_endFailed _ J x r y) J
  | start hst hj hkey ht =>
    have hwhy : Why s₀ c s { job := J, state := .active } :=
      .start hst hj (hkey.imp_right hM.ungated)
    exact .move hwhy hh (life_of_core ht)
  | @startFirst gk t hst hj hkey hnext hfull ht =>
    refine .move (.startFirst hst hj hkey hnext hfull) hh ((life_of_core ht).trans ?_)
    unfold startInGroup Move.apply
    have hjob (u : Queue) (hu : u.jobs = s.jobs) :
        ((u.setState J .active).job J).orderingSeq = (s.job J).orderingSeq := by
      rw [job_setState Job.orderingSeq fun _ _ => rfl]
      unfold Queue.job
      rw [hu]
    unfold doSlot
    by_cases hseq : 0 < (s.job J).orderingSeq
    · simp only [if_pos hseq]
      rw [hjob]
      · rfl
      · rfl
    · simp only [if_neg hseq]
      rw [hjob]
      · rfl
      · rfl
  | @startAgain gk t inQueue hchain hst hj hkey hseq hnext ht =>
    refine .move (.startAgain inQueue hst hj hkey hseq hnext) hh ((life_of_core ht).trans ?_)
    cases inQueue <;> rfl

theorem Claims.qsteps {M : ClaimMode} {J : JobId} (hM : M.Of s₀ c J) (hc : Claims M J s t) :
    QSteps s₀ c (h, s) (h, t) := by
  obtain ⟨u, v, hu, ho, ht⟩ := hc
  exact ((hu.qsteps hM.own).tail (ho.qstep hM (Or.inl rfl))).trans (ht.qsteps hM.own)

theorem Claims.qsteps_hand {M : ClaimMode} {J : JobId} (hM : M.Of s₀ c J) (hc : Claims M J s t) :
    QSteps s₀ c (some J, s) (none, t) := by
  obtain ⟨u, v, hu, ho, ht⟩ := hc
  exact ((hu.qsteps hM.own).tail (ho.qstep hM (Or.inr ⟨rfl, rfl⟩))).trans (ht.qsteps hM.own)

/-! ## Fetches -/

theorem FetchStep.qsteps (hc : ∃ call, c = some call ∧ call.chains)
    (hstep : FetchStep s₀.withinReach s t) : QSteps s₀ c (none, s) (none, t) := by
  have hstream (J : JobId) : streamMode.Of s₀ c J := ⟨fun _ => trivial, False.elim⟩
  cases hstep with
  | claim hstep =>
    cases hstep with
    | tail hstep => exact .single (hstep.qstep fun _ => trivial)
    | outcome ho => exact .single (ho.qstep (hstream _) (Or.inl rfl))
  | @popClaim k J t hlast hreach hclaim =>
    have hM : (listMode k).Of s₀ c J := by
      refine ⟨fun _ => trivial, ?_⟩
      rintro rfl
      exact List.mem_reverse.mp (List.mem_of_mem_take hreach)
    exact .head (.pop hlast hreach hc) (hclaim.qsteps_hand hM)
  | @popDrop k J hlast hreach hdrop =>
    refine .head (.pop hlast hreach hc) (.single (.discard hreach hc ?_))
    rwa [stateOf_drop, job_drop]

theorem FetchSteps.qsteps (hc : ∃ call, c = some call ∧ call.chains)
    (hsteps : FetchSteps s₀.withinReach s t) : QSteps s₀ c (none, s) (none, t) :=
  hsteps.keeps (I := fun u => QSteps s₀ c (none, s) (none, u))
    (fun _ _ hstep hs => hs.trans (hstep.qsteps hc)) .refl

/-! ## Parents -/

theorem Job.life_markDone (j : Job) (m : DepMember) : (j.markDone m).life = j.life := by
  unfold Job.markDone
  split <;> rfl

theorem Job.life_foldl_countEarly (ms : List DepMember) (j : Job) :
    (ms.foldl Job.countEarly j).life = j.life := by
  induction ms generalizing j with
  | nil => rfl
  | cons m ms ih => exact (ih _).trans (Job.life_markDone _ m)

theorem life_countEarlyDeps (s : Queue) (P : JobId) : (countEarlyDeps s P).1.life = s.life := by
  unfold countEarlyDeps
  simp only
  split
  · rfl
  · exact life_hmod_self s P fun j => Job.life_foldl_countEarly _ j

theorem life_parkEarly (s : Queue) (P : JobId) (m : DepMember) : (parkEarly s P m).life = s.life := by
  unfold parkEarly
  split
  · rfl
  · have hself : ((s.hmod P fun j => { j with
        depearly := m :: j.depearly, depsEarly := j.depsEarly + 1 }).saddDepsEarly P).life =
        (s.hmod P fun j => { j with
          depearly := m :: j.depearly, depsEarly := j.depsEarly + 1 }).life := rfl
    rw [hself]
    exact life_hmod_self s P fun _ => rfl

theorem releaseParentIfReady_qsteps (s : Queue) (P : JobId) :
    QSteps s₀ c (h, s) (h, (releaseParentIfReady s P).1) := by
  unfold releaseParentIfReady
  simp only
  split
  · rename_i hready
    exact .move (m := { job := P, place := .stream none, state := .waiting }) (.release hready.2) rfl
  · exact .refl

theorem completeParentDependency_qsteps (s : Queue) (P : JobId) (m : DepMember) :
    QSteps s₀ c (h, s) (h, (completeParentDependency s P m).1) := by
  unfold completeParentDependency
  split
  · exact .refl
  split
  · exact .of_life (life_parkEarly s P m)
  have hmark : ((countEarlyDeps s P).1.hmod P (·.markDone m)).life = s.life :=
    (life_hmod_self _ P fun j => Job.life_markDone j m).trans (life_countEarlyDeps s P)
  simp only
  split
  · exact (QSteps.of_life hmark).trans (releaseParentIfReady_qsteps _ P)
  · exact .of_life hmark

theorem life_notifyParent (q : Option QueueName) (p : Option JobId)
    (r : Queue × List ParentNotify) (J : JobId) : (notifyParent q p r J).1.life = r.1.life := by
  unfold notifyParent enqueueCrossQueueParentNotify
  simp only
  repeat' split
  all_goals rfl

theorem life_enqueueTreeParentNotifies (s : Queue) (J : JobId) (q : Option QueueName)
    (p : Option JobId) (ids : List JobId) :
    (enqueueTreeParentNotifies s J q p ids).1.life = s.life := by
  have hfold (l : List JobId) (r : Queue × List ParentNotify) :
      (l.foldl (notifyParent q p) r).1.life = r.1.life := by
    induction l generalizing r with
    | nil => rfl
    | cons K l ih => exact (ih _).trans (life_notifyParent q p r K)
  exact hfold (J :: ids) (s, [])

theorem resolveDagParents_qsteps (J : JobId) (ps : List DepMember) (r : Queue × List ParentNotify) :
    QSteps s₀ c (h, r.1) (h, (ps.foldl (resolveDagParent J) r).1) := by
  induction ps generalizing r with
  | nil => exact .refl
  | cons p ps ih =>
    refine Relation.ReflTransGen.trans ?_ (ih _)
    unfold resolveDagParent
    split
    · exact completeParentDependency_qsteps _ _ _
    · exact QSteps.of_life (life_notifyParent _ _ r J)

theorem completeParents_qsteps (s : Queue) (J : JobId) (q : Option QueueName) (p : Option JobId)
    (ns : List ParentNotify) : QSteps s₀ c (h, s) (h, (completeParents s J q p ns).1) := by
  unfold completeParents
  refine Relation.ReflTransGen.trans ?_ (resolveDagParents_qsteps J _ _)
  simp only
  split
  · exact .refl
  split
  · exact completeParentDependency_qsteps _ _ _
  · exact .refl

theorem resolveRemovedChildParents_qsteps (s : Queue) (J : JobId) (edges : ChildParents) :
    QSteps s₀ c (h, s) (h, (resolveRemovedChildParents s J edges).1) := by
  unfold resolveRemovedChildParents
  refine Relation.ReflTransGen.trans ?_ (resolveDagParents_qsteps J _ _)
  split
  · exact .refl
  split
  · exact completeParentDependency_qsteps _ _ _
  · exact QSteps.of_life (life_enqueueTreeParentNotifies _ _ _ _ _)

/-- The bookkeeping of parents releases them, and changes no other state. -/
def Releases (s t : Queue) : Prop :=
  ∀ J, t.stateOf J = s.stateOf J ∨ s.stateOf J = some .waitingChildren ∧ t.stateOf J = some .waiting

theorem Releases.refl (s : Queue) : Releases s s := fun _ => Or.inl rfl

theorem Releases.of_life (ht : t.life = s.life) : Releases s t :=
  fun J => Or.inl (stateOf_of_life ht J)

theorem Releases.trans (h₁ : Releases s t) (h₂ : Releases t u) : Releases s u := by
  intro J
  rcases h₂ J with heq | ⟨hwaits, hw⟩
  · rw [heq]
    exact h₁ J
  · rcases h₁ J with heq | ⟨-, hw'⟩
    · exact Or.inr ⟨heq.symm.trans hwaits, hw⟩
    · rw [hw'] at hwaits
      cases hwaits

theorem Releases.stays {J : JobId} {st : Option JobState} (h : Releases s t)
    (hst : s.stateOf J = st) (hwaits : st ≠ some .waitingChildren) : t.stateOf J = st := by
  rcases h J with heq | ⟨hw, -⟩
  · exact heq.trans hst
  · exact absurd (hst.symm.trans hw) hwaits

theorem releaseParentIfReady_releases (s : Queue) (P : JobId) :
    Releases s (releaseParentIfReady s P).1 := by
  unfold releaseParentIfReady
  simp only
  split
  · rename_i hready
    intro J
    have hstate : ((s.setState P .waiting).xaddJob P).stateOf J =
        if J = P then some .waiting else s.stateOf J := stateOf_setState s P J .waiting
    rw [hstate]
    split
    · rename_i hJ
      subst hJ
      exact Or.inr ⟨hready.2, rfl⟩
    · exact Or.inl rfl
  · exact .refl s

theorem completeParentDependency_releases (s : Queue) (P : JobId) (m : DepMember) :
    Releases s (completeParentDependency s P m).1 := by
  unfold completeParentDependency
  split
  · exact .refl s
  split
  · exact .of_life (life_parkEarly s P m)
  have hmark : Releases s ((countEarlyDeps s P).1.hmod P (·.markDone m)) :=
    .of_life ((life_hmod_self _ P fun j => Job.life_markDone j m).trans (life_countEarlyDeps s P))
  simp only
  split
  · exact hmark.trans (releaseParentIfReady_releases _ P)
  · exact hmark

theorem resolveDagParents_releases (J : JobId) (ps : List DepMember) (r : Queue × List ParentNotify) :
    Releases r.1 (ps.foldl (resolveDagParent J) r).1 := by
  induction ps generalizing r with
  | nil => exact .refl _
  | cons p ps ih =>
    refine Releases.trans ?_ (ih _)
    unfold resolveDagParent
    split
    · exact completeParentDependency_releases _ _ _
    · exact .of_life (life_notifyParent _ _ r J)

theorem completeParents_releases (s : Queue) (J : JobId) (q : Option QueueName) (p : Option JobId)
    (ns : List ParentNotify) : Releases s (completeParents s J q p ns).1 := by
  unfold completeParents
  refine Releases.trans ?_ (resolveDagParents_releases J _ _)
  simp only
  split
  · exact .refl s
  split
  · exact completeParentDependency_releases _ _ _
  · exact .refl s

theorem resolveRemovedChildParents_releases (s : Queue) (J : JobId) (edges : ChildParents) :
    Releases s (resolveRemovedChildParents s J edges).1 := by
  unfold resolveRemovedChildParents
  refine Releases.trans ?_ (resolveDagParents_releases J _ _)
  split
  · exact .refl s
  split
  · exact completeParentDependency_releases _ _ _
  · exact .of_life (life_enqueueTreeParentNotifies _ _ _ _ _)

end

end GlideMq
