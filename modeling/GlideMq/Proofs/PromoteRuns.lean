import GlideMq.Proofs.DrainRuns
import GlideMq.Proofs.PromoteRounds

/-!
# The scheduler's ticks as a run of steps

`promote` takes due members one by one. `promoteRateLimited` sweeps the groups whose pause is over:
it peeks at the head, looks at the returning jobs, and promotes from the wait queue.
-/

namespace GlideMq

open Queue Redis

section

variable {s₀ : Queue} {c : Option Call} {h : Option JobId} {s t u : Queue}

/-! ## Scheduled jobs -/

theorem promoteMember_qsteps {now serverNow p : Int} {m : String} (hc : TakesDue s₀ c m)
    (hready : ¬ isExpired (s.job (splitMember m).1) now → Promotes s₀ c m) :
    QSteps s₀ c (h, s) (h, promoteMember p now serverNow s m) := by
  unfold promoteMember
  simp only
  generalize hJ : (splitMember m).1 = J
  have hstate : (s.zremScheduled m).stateOf J = s.stateOf J := rfl
  rcases checkExpired_cases (s.zremScheduled m) J now serverNow with ⟨hexp, heq⟩ | ⟨hexp, heq⟩
  · rw [heq]
    simp only
    have hmove (pl : Place) (hpl : pl.queued s J) :
        QSteps s₀ c (h, s) (h, ((s.zremScheduled m).put J pl).setState J .waiting) := by
      subst hJ
      exact .single (.move (.takeDue (hready hexp) hpl) (Or.inl rfl) rfl)
    split
    · rename_i hlifo
      exact hmove .lifo hlifo
    split
    · exact hmove .priorityFront trivial
    split
    · exact hmove (.stream (some _)) trivial
    · exact hmove (.stream none) trivial
  · rw [heq]
    simp only
    by_cases hst : s.stateOf J = some .failed
    · unfold expireJob
      rw [hstate, if_pos hst]
      subst hJ
      exact .single (.unschedule hc hst)
    · have hjobs : s.jobs J ≠ none := jobs_ne_none_of_expired (s := s.zremScheduled m) hexp
      subst hJ
      have hwhy : Why s₀ c s
          { job := (splitMember m).1, sources := [.scheduled m], place := .failed now,
            state := .failed, slot := endSlot (s.stateOf (splitMember m).1) } :=
        .expireDue hc hjobs hst
      exact expireJob_qsteps hst hwhy rfl rfl (life_endFailed _ _ now "expired" now).symm

theorem expireAt_promoteMember (p now serverNow : Int) (s : Queue) (m : String) (K : JobId) :
    ((promoteMember p now serverNow s m).job K).expireAt = (s.job K).expireAt := by
  unfold promoteMember
  simp only
  generalize (splitMember m).1 = J
  have hcheck := frame_job Job.expireAt (fun _ => rfl)
    (frame_checkExpired (s.zremScheduled m) J now serverNow) K
  generalize checkExpired (s.zremScheduled m) J now serverNow = r at *
  obtain ⟨t, _ | _⟩ := r
  · refine (job_setState Job.expireAt (fun _ _ => rfl) _ J K .waiting).trans ?_
    repeat' split
    all_goals exact hcheck
  · exact hcheck

theorem promote_qsteps (s : Queue) (now serverNow : Int) :
    QSteps s (some (.promote now serverNow)) (none, s) (none, (promote s now serverNow).1) := by
  have hrule := promote_rule s now serverNow
    (I := fun t _ => QSteps s (some (.promote now serverNow)) (none, s) (none, t) ∧
      ∀ K, (t.job K).expireAt = (s.job K).expireAt)
  obtain ⟨p, hsteps, -⟩ := hrule (fun t p p' m ht _ hdue => by
    obtain ⟨x, hx, hlow, hhigh⟩ := hdue
    have hc : TakesDue s (some (.promote now serverNow)) m := ⟨now, serverNow, rfl, p', x, hx, hlow, hhigh⟩
    refine ⟨ht.1.trans (promoteMember_qsteps hc fun hexp => ⟨hc, ?_⟩), fun K =>
      (expireAt_promoteMember p' now serverNow t m K).trans (ht.2 K)⟩
    intro now' serverNow' heq
    cases heq
    unfold isExpired at hexp ⊢
    rwa [← ht.2]) ⟨.refl, fun _ => rfl⟩
  exact hsteps

/-! ## What a sweep keeps -/

/-- A job that was parked when the sweep looked at it. -/
def Queue.parkedOnce (s : Queue) (J : JobId) : Prop :=
  s.stateOf J = some .groupWaiting ∨ s.stateOf J = some .waiting ∨ s.stateOf J = some .failed

structure Sweeping (s₀ : Queue) (c : Option Call) (h : Option JobId) (s t : Queue) : Prop where
  steps : QSteps s₀ c (h, s) (h, t)
  cap : ∀ gk, (t.groups gk).tbCapacity = (s.groups gk).tbCapacity
  cost : ∀ J, (t.job J).cost = (s.job J).cost
  returning : ∀ gk J, J ∈ t.returning gk → J ∈ s.returning gk
  parked : ∀ J, s.parkedOnce J → t.parkedOnce J
  parks : ∀ J, t.stateOf J = some .groupWaiting → s.stateOf J = some .groupWaiting

theorem Sweeping.refl (s : Queue) : Sweeping s₀ c h s s :=
  ⟨.refl, fun _ => rfl, fun _ => rfl, fun _ _ hJ => hJ, fun _ hJ => hJ, fun _ hJ => hJ⟩

theorem Sweeping.trans (h₁ : Sweeping s₀ c h s t) (h₂ : Sweeping s₀ c h t u) :
    Sweeping s₀ c h s u where
  steps := h₁.steps.trans h₂.steps
  cap gk := (h₂.cap gk).trans (h₁.cap gk)
  cost J := (h₂.cost J).trans (h₁.cost J)
  returning gk J hJ := h₁.returning gk J (h₂.returning gk J hJ)
  parked J hJ := h₂.parked J (h₁.parked J hJ)
  parks J hJ := h₁.parks J (h₂.parks J hJ)

theorem cost_hset (s : Queue) (J K : JobId) {f : Job → Job} (hf : ∀ j, (f j).cost = j.cost) :
    ((s.hset J f).job K).cost = (s.job K).cost := by
  unfold Queue.job
  simp only [hset_jobs, Function.update_apply]
  split
  · rename_i hK
    subst hK
    exact hf _
  · rfl

theorem cost_closeOrderingHole (s : Queue) (J K : JobId) :
    ((closeOrderingHole s J).job K).cost = (s.job K).cost := by
  have hclear (q : Queue) : ((clearRetainedSlot q J).job K).cost = (q.job K).cost := by
    unfold clearRetainedSlot Queue.job
    simp only [hmod_jobs, Function.update_apply]
    split
    · rename_i hK
      subst hK
      cases q.jobs K <;> rfl
    · rfl
  unfold closeOrderingHole
  simp only
  split
  · rfl
  split
  · rfl
  split
  · exact hclear _
  · rfl

theorem cap_closeOrderingHole (s : Queue) (J : JobId) (gk : GroupKey) :
    ((closeOrderingHole s J).groups gk).tbCapacity = (s.groups gk).tbCapacity := by
  rw [closeOrderingHole_groups]
  split
  · unfold GroupHash.closeHole
    simp only
    split <;> rfl
  · rfl

theorem returning_closeOrderingHole {J K : JobId} {gk : GroupKey}
    (hK : K ∈ (closeOrderingHole s J).returning gk) : K ∈ s.returning gk := by
  unfold closeOrderingHole at hK
  simp only at hK
  split at hK
  · exact hK
  rename_i k _
  have hrem (hK : K ∈ Function.update s.returning k ((s.returning k).rem J) gk) :
      K ∈ s.returning gk := by
    rw [Function.update_apply] at hK
    split at hK
    · rename_i hgk
      subst hgk
      exact (SortedSet.mem_rem.mp hK).2
    · exact hK
  split at hK
  · exact hK
  split at hK
  · exact hrem hK
  · exact hrem hK

theorem skipToNext_cap (s : Queue) (gk gk' : GroupKey) (n : Nat) :
    ((skipToNext s gk n).1.groups gk').tbCapacity = (s.groups gk').tbCapacity := by
  unfold skipToNext advancePastSkips setNextSeq
  by_cases hgk : gk' = gk <;> simp only <;> repeat' split
  all_goals simp [hgk]

theorem skipToNext_returning (s : Queue) (gk : GroupKey) (n : Nat) :
    (skipToNext s gk n).1.returning = s.returning := by
  unfold skipToNext
  simp only
  repeat' split
  all_goals rfl

theorem consumeOrderedTombstone_cap (s : Queue) (gk gk' : GroupKey) (n : Nat) (J : JobId) (x : Int) :
    ((consumeOrderedTombstone s gk n J x).1.groups gk').tbCapacity = (s.groups gk').tbCapacity := by
  unfold consumeOrderedTombstone
  split
  · rfl
  · have hmark := group_of_core GroupHash.tbCapacity (fun _ => rfl)
      (core_markOrderingDone s J (some gk) (some n)) gk'
    by_cases hgk : gk' = gk
    · subst hgk
      simpa [setNextSeq, advancePastSkips] using hmark
    · simpa [setNextSeq, advancePastSkips, hgk] using hmark

theorem consumeOrderedTombstone_returning (s : Queue) (gk : GroupKey) (n : Nat) (J : JobId) (x : Int) :
    (consumeOrderedTombstone s gk n J x).1.returning = s.returning := by
  unfold consumeOrderedTombstone
  split
  · rfl
  · have hmark := key_of_core Queue.returning (fun _ => rfl)
      (core_markOrderingDone s J (some gk) (some n))
    exact hmark

theorem GroupStep.parkedOnce (hstep : GroupStep s t) {J : JobId} (hJ : s.parkedOnce J) :
    t.parkedOnce J := by
  unfold Queue.parkedOnce at *
  rcases hstep.stateOf J with heq | ⟨-, hw⟩ | ⟨hf, -⟩
  · rwa [heq]
  · exact Or.inr (Or.inl hw)
  · exact Or.inr (Or.inr hf)

theorem GroupStep.parks (hstep : GroupStep s t) {J : JobId}
    (hJ : t.stateOf J = some .groupWaiting) : s.stateOf J = some .groupWaiting := by
  rcases hstep.stateOf J with heq | ⟨hw, -⟩ | ⟨hf, -⟩
  · rwa [← heq]
  · exact hw
  · rw [hf] at hJ
    cases hJ

theorem GroupStep.sweeping (hstep : GroupStep s t) : Sweeping s₀ c h s t := by
  refine ⟨.single hstep.qstep, ?_, ?_, ?_, fun J hJ => hstep.parkedOnce hJ, fun J => hstep.parks⟩
  · intro gk'
    cases hstep with
    | quiet ht => exact group_of_core GroupHash.tbCapacity (fun _ => rfl) ht gk'
    | skip gk => exact skipToNext_cap s gk gk' _
    | @tombstone gk J x hq hj => exact consumeOrderedTombstone_cap (s.zremGroupq gk J) gk gk' _ J x
    | @failParked gk J t x r y hq hj hcap hcost ht =>
      rw [group_of_core GroupHash.tbCapacity (fun _ => rfl) ht gk', cap_closeOrderingHole]
      rfl
    | _ => rfl
  · intro K
    cases hstep with
    | quiet ht => exact job_of_core Job.cost (fun _ => rfl) ht K
    | skip gk =>
      unfold Queue.job
      rw [skipToNext_jobs]
    | tombstone hq hj =>
      unfold Queue.job
      rw [consumeOrderedTombstone_jobs]
      rfl
    | @promote gk J hq hst =>
      exact cost_hset ((s.zremGroupq gk J).xaddJob J) J K (f := ({ · with state := some .waiting }))
        fun _ => rfl
    | @failParked gk J t x r y hq hj hcap hcost ht =>
      rw [job_of_core Job.cost (fun _ => rfl) ht K, cost_closeOrderingHole]
      refine cost_hset ((s.zremGroupq gk J).zaddFailed J x) J K (f := fun j =>
        { j with state := some .failed, failedReason := some r, finishedOn := some y }) fun _ => rfl
    | _ => rfl
  · intro gk' K hK
    cases hstep with
    | quiet ht => rwa [key_of_core Queue.returning (fun _ => rfl) ht] at hK
    | skip gk => rwa [skipToNext_returning] at hK
    | tombstone hq hj => rwa [consumeOrderedTombstone_returning] at hK
    | @failParked gk J t x r y hq hj hcap hcost ht =>
      rw [key_of_core Queue.returning (fun _ => rfl) ht] at hK
      have hparked := returning_closeOrderingHole hK
      exact hparked
    | _ => exact hK

theorem GroupSteps.sweeping (hsteps : GroupSteps s t) : Sweeping s₀ c h s t :=
  hsteps.keeps (I := fun q => Sweeping s₀ c h s q) (fun _ _ hstep hs => hs.trans hstep.sweeping)
    (.refl s)

/-! ## The head -/

theorem failOversize_steps {J : JobId} {gk : GroupKey} (hq : J ∈ s.groupq gk)
    (hj : s.jobs J ≠ none) (hcap : 0 < (s.groups gk).tbCapacity)
    (hcost : (s.groups gk).tbCapacity < (s.job J).cost.getD 1000) (now serverNow : Int) :
    GroupSteps s
      (closeOrderingHoleAndPromote (failOversize (s.zremGroupq gk J) J gk now) J now serverNow) := by
  have hfail : GroupStep s (closeOrderingHole (failOversize (s.zremGroupq gk J) J gk now) J) :=
    .failParked hq hj hcap hcost (core_closeOrderingHole (core_failOversize _ J gk now) J)
  exact .head hfail (closeOrderingHoleAndPromote_steps _ J now serverNow)

theorem sweepHead_steps (gk : GroupKey) (now serverNow tokens : Int) :
    ∀ (checks : Nat) (s : Queue) (n : Nat), n = (s.groups gk).nextSeq →
      0 < (s.groups gk).tbCapacity →
      GroupSteps s (sweepHead gk now serverNow tokens checks s n).1 ∧
        ((sweepHead gk now serverNow tokens checks s n).2.2 ≠ .blocked →
          (sweepHead gk now serverNow tokens checks s n).2.1 =
            ((sweepHead gk now serverNow tokens checks s n).1.groups gk).nextSeq)
  | 0, s, n, hn, _ => ⟨.refl, fun _ => hn⟩
  | checks + 1, s, n, hn, hcap => by
    rw [sweepHead]
    split
    · exact ⟨.refl, fun _ => hn⟩
    · rename_i J score hq
      split
      · rename_i hj
        have hnext := nextSeq_consumeOrderedTombstone (s := s.zremGroupq gk J) hn J score
        obtain ⟨hsteps, heq⟩ := sweepHead_steps gk now serverNow tokens checks _ _ hnext
          (by rw [tbCapacity_consumeOrderedTombstone]; exact hcap)
        refine ⟨.head ?_ hsteps, heq⟩
        rw [hn]
        exact .tombstone hq hj
      · rename_i job hj
        have hjob : s.job J = job := by simp [Queue.job, hj]
        simp only
        split
        · rename_i hcost
          rw [← hjob] at hcost
          exact ⟨failOversize_steps (SortedSet.mem_of_first? hq) (by simp [hj]) hcap hcost now serverNow,
            fun hne => absurd rfl hne⟩
        · split
          · exact ⟨.one (.limit gk _), fun hne => absurd rfl hne⟩
          · exact ⟨.refl, fun _ => hn⟩

/-- What the check of the head decides. -/
def afterSweepHead (gk : GroupKey) (now tokens : Int) (r : Queue × Nat × SweepCheck) :
    Queue × Nat × Int × Bool :=
  match r with
  | (s, nextSeq, .ready) => (s, nextSeq, tokens, true)
  | (s, nextSeq, .blocked) => (s, nextSeq, tokens, false)
  | (s, nextSeq, .unready) =>
    if 0 < (s.groupq gk).card then (s.zaddRatelimited gk now, nextSeq, tokens, false)
    else (s, nextSeq, tokens, true)

theorem sweepGate_eq (s : Queue) (gk : GroupKey) (now serverNow : Int) :
    sweepGate s gk now serverNow =
      if (s.groups gk).tbCapacity ≤ 0 then (s, (s.groups gk).nextSeq, 0, true)
      else
        afterSweepHead gk now (refill s gk serverNow).2
          (sweepHead gk now serverNow (refill s gk serverNow).2 100 (refill s gk serverNow).1
            (s.groups gk).nextSeq) := by
  rw [sweepGate]
  split
  · rfl
  · cases refill s gk serverNow with
    | mk t tokens =>
      simp only
      cases sweepHead gk now serverNow tokens 100 t (s.groups gk).nextSeq with
      | mk t r =>
        cases r with
        | mk n check => cases check <;> rfl

theorem sweepGate_steps (s : Queue) (gk : GroupKey) (now serverNow : Int) :
    GroupSteps s (sweepGate s gk now serverNow).1 ∧
      ((sweepGate s gk now serverNow).2.2.2 = true →
        (sweepGate s gk now serverNow).2.1 =
          ((sweepGate s gk now serverNow).1.groups gk).nextSeq) := by
  -- A group that passes its check goes on with the sequence of its hash.
  rw [sweepGate_eq]
  split
  · exact ⟨.refl, fun _ => rfl⟩
  rename_i hcap
  have hrefill : GroupSteps s (refill s gk serverNow).1 := .of_core (core_refill s gk serverNow)
  have hcap' := group_of_core GroupHash.tbCapacity (fun _ => rfl) (core_refill s gk serverNow) gk
  obtain ⟨hsteps, hnext⟩ := sweepHead_steps gk now serverNow (refill s gk serverNow).2 100
    (refill s gk serverNow).1 (s.groups gk).nextSeq (nextSeq_refill s gk serverNow).symm
    (by rw [hcap']; omega)
  replace hsteps := hrefill.trans hsteps
  generalize sweepHead gk now serverNow _ 100 _ _ = r at *
  obtain ⟨t, n, check⟩ := r
  unfold afterSweepHead
  cases check with
  | ready => exact ⟨hsteps, fun _ => hnext (by simp)⟩
  | blocked => exact ⟨hsteps, fun hpassed => by simp at hpassed⟩
  | unready =>
    simp only
    split
    · exact ⟨hsteps.tail (.limit gk now), fun hpassed => by simp at hpassed⟩
    · exact ⟨hsteps, fun _ => hnext (by simp)⟩

/-! ## Returning jobs -/

theorem zremReturning_sweeping (s : Queue) (gk : GroupKey) (J : JobId) :
    Sweeping s₀ c h s (s.zremReturning gk J) := by
  refine ⟨.of_life rfl, fun _ => rfl, fun _ => rfl, fun gk' K hK => ?_, fun _ hK => hK,
    fun _ hK => hK⟩
  simp only [zremReturning_returning, Function.update_apply] at hK
  split at hK
  · rename_i hgk
    subst hgk
    exact (SortedSet.mem_rem.mp hK).2
  · exact hK

theorem readyReturners_sweeping (s : Queue) (gk : GroupKey) :
    Sweeping s₀ c h s (readyReturners s gk).1 ∧ ∀ J ∈ (readyReturners s gk).2,
      (readyReturners s gk).1.stateOf J = some .groupWaiting ∧ J ∈ s.returning gk := by
  unfold readyReturners
  refine List.foldlRecOn (motive := fun r : Queue × List JobId => Sweeping s₀ c h s r.1 ∧
    ∀ J ∈ r.2, r.1.stateOf J = some .groupWaiting ∧ J ∈ s.returning gk) _ _ ⟨.refl s, by simp⟩ ?_
  intro r hr K hK
  simp only
  split
  · rename_i hready
    refine ⟨hr.1, fun J hJ => ?_⟩
    rcases List.mem_append.mp hJ with hJ | hJ
    · exact hr.2 J hJ
    · obtain rfl := List.mem_singleton.mp hJ
      exact ⟨hready.1, SortedSet.mem_of_mem_take hK⟩
  · have hrem : Sweeping s₀ c h r.1 (r.1.zremReturning gk K) := zremReturning_sweeping r.1 gk K
    exact ⟨hr.1.trans hrem, fun J hJ => ⟨(hr.2 J hJ).1, (hr.2 J hJ).2⟩⟩

theorem failed_sweeping {J : JobId} {gk : GroupKey} {x y : Int} {r : String}
    (hsteps : QSteps s₀ c (h, s) (h, t))
    (hcore : t.core = (closeOrderingHole (endFailed (s.zremGroupq gk J) J x r y) J).core) :
    Sweeping s₀ c h s t := by
  refine ⟨hsteps, fun gk' => ?_, fun K => ?_, fun gk' K hK => ?_, fun K hK => ?_, fun K hK => ?_⟩
  · rw [group_of_core GroupHash.tbCapacity (fun _ => rfl) hcore gk', cap_closeOrderingHole]
    rfl
  · rw [job_of_core Job.cost (fun _ => rfl) hcore K, cost_closeOrderingHole]
    exact cost_hset ((s.zremGroupq gk J).zaddFailed J x) J K (f := fun j =>
      { j with state := some .failed, failedReason := some r, finishedOn := some y }) fun _ => rfl
  · rw [key_of_core Queue.returning (fun _ => rfl) hcore] at hK
    have hback := returning_closeOrderingHole hK
    exact hback
  · unfold Queue.parkedOnce at *
    rw [stateOf_of_core hcore, closeOrderingHole_stateOf, stateOf_endFailed]
    split
    · exact Or.inr (Or.inr rfl)
    · exact hK
  · rw [stateOf_of_core hcore, closeOrderingHole_stateOf, stateOf_endFailed] at hK
    split at hK
    · cases hK
    · exact hK

/-- What the check of the returning jobs has found. -/
structure Checked (s₀ : Queue) (c : Option Call) (h : Option JobId) (g : GroupHash) (s : Queue)
    (ready : List JobId) (r : Queue × Returners) : Prop where
  sweeping : Sweeping s₀ c h s r.1
  ready : ∀ J ∈ r.2.promotable, J ∈ ready
  fits : ∀ J ∈ r.2.promotable, ¬ (0 < g.tbCapacity ∧ g.tbCapacity < (s.job J).cost.getD 1000)

theorem checkReturner_checked {g : GroupHash} {gk : GroupKey} {now serverNow : Int}
    {ready : List JobId} {r : Queue × Returners} {J : JobId} (hc : Sweeps c) (hJ : J ∈ ready)
    (hparked : s.parkedOnce J) (hr : Checked s₀ c h g s ready r) :
    Checked s₀ c h g s ready (checkReturner g gk now serverNow r J) := by
  have hnow := hr.sweeping.parked J hparked
  have hcost := hr.sweeping.cost J
  obtain ⟨t, ret⟩ := r
  simp only at hnow hcost
  unfold checkReturner
  simp only
  split
  · have hwhy : Why s₀ c t
        { job := J, sources := [.groupq gk], place := .failed now, state := .failed,
          slot := .closeHole } := .oversizeReturner hc hnow
    have hcore := core_closeOrderingHole (core_failOversize (t.zremGroupq gk J) J gk now) J
    have hclosed := life_closeOrderingHole (life_endFailed (t.zremGroupq gk J) J now costReason now) J
    have hfail := failed_sweeping (h := h) (.move hwhy ((life_of_core hcore).trans hclosed)) hcore
    refine ⟨hr.sweeping.trans (hfail.trans ?_), hr.ready, hr.fits⟩
    exact (closeOrderingHoleAndPromote_steps _ J now serverNow).sweeping
  · rename_i hfits
    split
    · exact ⟨hr.sweeping, hr.ready, hr.fits⟩
    · refine ⟨hr.sweeping, fun K hK => ?_, fun K hK => ?_⟩
      · rcases List.mem_append.mp hK with hK | hK
        · exact hr.ready K hK
        · rwa [List.mem_singleton.mp hK]
      · rcases List.mem_append.mp hK with hK | hK
        · exact hr.fits K hK
        · rw [List.mem_singleton.mp hK, ← hcost]
          exact hfits

theorem foldl_checkReturner_checked {g : GroupHash} {gk : GroupKey} {now serverNow : Int}
    {ready : List JobId} (hc : Sweeps c) (hparked : ∀ J ∈ ready, s.parkedOnce J) :
    ∀ (ids : List JobId) (r : Queue × Returners), (∀ J ∈ ids, J ∈ ready) →
      Checked s₀ c h g s ready r →
      Checked s₀ c h g s ready (ids.foldl (checkReturner g gk now serverNow) r)
  | [], _, _, hr => hr
  | J :: ids, r, hids, hr => by
    have hJ := hids J List.mem_cons_self
    exact foldl_checkReturner_checked hc hparked ids _
      (fun K hK => hids K (List.mem_cons_of_mem _ hK)) (checkReturner_checked hc hJ (hparked J hJ) hr)

theorem promoteReturner_sweeping {J : JobId} {gk : GroupKey} (hc : Sweeps c)
    (hparked : s₀.stateOf J = some .groupWaiting) (hret : J ∈ s₀.returning gk)
    (hfits : ¬ (0 < (s₀.groups gk).tbCapacity ∧
      (s₀.groups gk).tbCapacity < (s₀.job J).cost.getD 1000))
    (hst : s.parkedOnce J) : Sweeping s₀ c h s (promoteReturner gk s J) := by
  have hwhy : Why s₀ c s
      { job := J, sources := [.groupq gk], place := .stream none, state := .waiting } :=
    .promoteReturner hc hparked hret hfits hst
  have hpromote : Sweeping s₀ c h s (promoteJobOfGroup (s.zremGroupq gk J) J) := by
    refine ⟨.move hwhy rfl, fun _ => rfl, fun K => ?_, fun _ _ hK => hK, fun K hK => ?_, fun K hK => ?_⟩
    · exact cost_hset ((s.zremGroupq gk J).xaddJob J) J K (f := ({ · with state := some .waiting }))
        fun _ => rfl
    · unfold Queue.parkedOnce promoteJobOfGroup at *
      rw [stateOf_setState]
      split
      · exact Or.inr (Or.inl rfl)
      · exact hK
    · unfold promoteJobOfGroup at hK
      rw [stateOf_setState] at hK
      split at hK
      · cases hK
      · exact hK
  exact hpromote.trans (zremReturning_sweeping _ gk J)

theorem foldl_promoteReturner_sweeping {gk : GroupKey} (hc : Sweeps c) :
    ∀ (ids : List JobId) (s : Queue),
      (∀ J ∈ ids, s₀.stateOf J = some .groupWaiting ∧ J ∈ s₀.returning gk ∧ s.parkedOnce J ∧
        ¬ (0 < (s₀.groups gk).tbCapacity ∧ (s₀.groups gk).tbCapacity < (s₀.job J).cost.getD 1000)) →
      Sweeping s₀ c h s (ids.foldl (promoteReturner gk) s)
  | [], s, _ => .refl s
  | J :: ids, s, hids => by
    obtain ⟨hwaited, hret, hparked, hfits⟩ := hids J List.mem_cons_self
    have hfirst := promoteReturner_sweeping (h := h) hc hwaited hret hfits hparked
    refine hfirst.trans (foldl_promoteReturner_sweeping hc ids _ fun K hK => ?_)
    obtain ⟨hwaited', hret', hparked', hfits'⟩ := hids K (List.mem_cons_of_mem _ hK)
    exact ⟨hwaited', hret', hfirst.parked K hparked', hfits'⟩

/-! ## The wait queue -/

theorem earlierHead_steps {gk : GroupKey} {n : Nat} {r : Queue × JobId}
    (hr : earlierHead s gk n = some r) : GroupSteps s r.1 := by
  unfold earlierHead at hr
  simp only at hr
  cases hfind : ((s.groupq gk).take 128).find?
      (fun J => decide (0 < (s.job J).orderingSeq ∧ (s.job J).orderingSeq < n)) with
  | none => rw [hfind] at hr; cases hr
  | some J =>
    rw [hfind] at hr
    obtain rfl := Option.some.inj hr
    have hmem : J ∈ s.groupq gk := SortedSet.mem_of_mem_take (List.mem_of_find?_eq_some hfind)
    simp only
    split
    · exact .refl
    · have hback : (s.zremGroupq gk J).zaddGroupq gk J (s.job J).orderingSeq =
          s.zaddGroupq gk J (s.job J).orderingSeq := by
        unfold zaddGroupq zremGroupq
        simp only [Function.update_self, Function.update_idem, SortedSet.add_rem_self]
      rw [← hback]
      exact .one (.putBack hmem _)

theorem expireParked_sweeping {J : JobId} {gk : GroupKey} (hq : J ∈ s.groupq gk)
    (hst : s.stateOf J = some .groupWaiting) (now serverNow : Int) :
    Sweeping s₀ c h s (expireJob (s.zremGroupq gk J) J now serverNow (some .groupWaiting) none none
      none) := by
  unfold expireJob
  rw [if_neg (by simp)]
  simp only
  generalize hv : markOrderingDone _ J none none = v
  have hcore : v.core = (endFailed (s.zremGroupq gk J) J now "expired" now).core := by
    rw [← hv, core_markOrderingDone, core_advanceRepeatAfterComplete]
    rfl
  have hclosed := core_closeOrderingHole hcore J
  have hwhy : Why s₀ c s
      { job := J, sources := [.groupq gk], place := .failed now, state := .failed,
        slot := .closeHole } := .expireParked hq hst
  have hlife := life_closeOrderingHole (life_endFailed (s.zremGroupq gk J) J now "expired" now) J
  have hfail := failed_sweeping (h := h) (.move hwhy ((life_of_core hclosed).trans hlife)) hclosed
  have hgroup := closeOrderingHoleAndPromote_steps v J now serverNow
  simp only [Option.some.injEq, reduceCtorEq, if_false]
  exact hfail.trans (GroupSteps.sweeping (hgroup.tail (.quiet (core_recordFailed _ _ _))))

theorem sweepLoop_sweeping (gk : GroupKey) (now serverNow : Int) (paused : Bool) :
    ∀ (iter left : Nat) (s : Queue) (n promoted : Nat),
      Sweeping s₀ c h s (sweepLoop gk now serverNow paused iter left s n promoted).1
  | 0, _, s, _, _ => by rw [sweepLoop]; exact .refl s
  | _ + 1, 0, s, _, _ => by rw [sweepLoop]; exact .refl s
  | iter + 1, left + 1, s, n, promoted => by
    rw [sweepLoop]
    split
    · exact .refl s
    rename_i J score hq
    have hmem := SortedSet.mem_of_first? hq
    simp only
    split
    · exact GroupStep.sweeping (.putBack hmem _)
    split
    · rename_i hst
      have hdrop : GroupStep s (s.zremGroupq gk J) := .drop hmem hst
      exact hdrop.sweeping.trans (sweepLoop_sweeping gk now serverNow paused iter (left + 1) _ n promoted)
    rename_i hst
    have hst : s.stateOf J = some .groupWaiting := not_not.mp hst
    rcases checkExpired_cases (s.zremGroupq gk J) J now serverNow with ⟨-, heq⟩ | ⟨-, heq⟩
    · rw [heq]
      simp only
      split
      · exact GroupStep.sweeping (.putBack hmem _)
      · have hpromote : GroupStep s (promoteJobOfGroup (s.zremGroupq gk J) J) := .promote hmem hst
        exact hpromote.sweeping.trans (sweepLoop_sweeping gk now serverNow paused iter left _ _ _)
    · rw [heq]
      simp only
      have hstate : (s.zremGroupq gk J).stateOf J = some .groupWaiting := hst
      rw [hstate]
      exact (expireParked_sweeping hmem hst now serverNow).trans
        (sweepLoop_sweeping gk now serverNow paused iter (left + 1) _ n promoted)

/-! ## A sweep -/

theorem limitUntil_steps (s : Queue) (gk : GroupKey) (resumeAt : Option Int) :
    GroupSteps s (match resumeAt with
      | none => s
      | some t => s.zaddRatelimited gk t) := by
  cases resumeAt with
  | none => exact .refl
  | some t => exact .one (.limit gk t)

theorem sweepPromote_sweeping {gk : GroupKey} {g : GroupHash} {n : Nat} (hc : Sweeps c)
    (hnext : n = (s.groups gk).nextSeq) (hs : Sweeping s₀ c h s₀ s)
    (hg : g.tbCapacity = (s₀.groups gk).tbCapacity) (tokens now serverNow : Int) :
    Sweeping s₀ c h s₀ (sweepPromote s gk g n tokens now serverNow).1 := by
  unfold sweepPromote
  generalize 1000 = most
  simp only
  have hskip : GroupStep s (skipToNext s gk n).1 := hnext ▸ .skip gk
  replace hs := hs.trans hskip.sweeping
  generalize skipToNext s gk n = a at *
  obtain ⟨s₁, n₁⟩ := a
  simp only at hs ⊢
  obtain ⟨hready, hmem⟩ : Sweeping s₀ c h s₁ (readyReturners s₁ gk).1 ∧ _ :=
    readyReturners_sweeping s₁ gk
  generalize readyReturners s₁ gk = a at *
  obtain ⟨s₂, ready⟩ := a
  simp only at hready hmem ⊢
  have hchecked : Checked s₀ c h g s₂ ready
      (ready.foldl (checkReturner g gk now serverNow) (s₂, { tokens })) :=
    foldl_checkReturner_checked hc (fun J hJ => Or.inl (hmem J hJ).1) ready (s₂, { tokens })
      (fun J hJ => hJ) ⟨.refl s₂, by simp, by simp⟩
  generalize ready.foldl (checkReturner g gk now serverNow) (s₂, { tokens }) = a at *
  obtain ⟨s₃, r⟩ := a
  obtain ⟨hchecking, hsub, hfits⟩ := hchecked
  simp only at hchecking hsub hfits ⊢
  have hback (J : JobId) (hJ : J ∈ r.promotable) : s₀.stateOf J = some .groupWaiting ∧
      J ∈ s₀.returning gk ∧ s₃.parkedOnce J ∧
      ¬ (0 < (s₀.groups gk).tbCapacity ∧
        (s₀.groups gk).tbCapacity < (s₀.job J).cost.getD 1000) := by
    obtain ⟨hparked, hret⟩ := hmem J (hsub J hJ)
    refine ⟨(hs.trans hready).parks J hparked, hs.returning gk J hret,
      hchecking.parked J (Or.inl hparked), ?_⟩
    rw [← hg, ← (hs.trans hready).cost J]
    exact hfits J hJ
  have hlast (a : Queue × Int) (ha : GroupSteps s₃ a.1) (paused : Bool) (iter left count : Nat) :
      Sweeping s₀ c h s₀ (sweepLoop gk now serverNow paused iter left
        (r.promotable.foldl (promoteReturner gk) a.1) n₁ count).1 := by
    have hlimited : Sweeping s₀ c h s₃ a.1 := GroupSteps.sweeping ha
    have hpromoted := foldl_promoteReturner_sweeping (h := h) hc r.promotable a.1 fun J hJ =>
      ⟨(hback J hJ).1, (hback J hJ).2.1, hlimited.parked J (hback J hJ).2.2.1, (hback J hJ).2.2.2⟩
    exact ((((hs.trans hready).trans hchecking).trans hlimited).trans hpromoted).trans
      (sweepLoop_sweeping gk now serverNow _ _ _ _ _ _)
  refine hlast _ ?_ _ _ _ _
  have hlimit := limitUntil_steps s₃ gk r.resumeAt
  split
  · exact hlimit
  split
  · split
    · exact hlimit
    · rename_i hearlier
      exact hlimit.trans (earlierHead_steps hearlier)
  · exact hlimit

theorem sweepGroup_sweeping {now serverNow : Int} (hc : Sweeps c) {r : Queue × Nat}
    (hr : Sweeping s₀ c h s₀ r.1) (gk : GroupKey) :
    Sweeping s₀ c h s₀ (sweepGroup now serverNow r gk).1 := by
  unfold sweepGroup
  simp only
  have hunlimit : Sweeping s₀ c h r.1 (r.1.zremRatelimited gk) :=
    ⟨.single (.unlimit gk), fun _ => rfl, fun _ => rfl, fun _ _ hJ => hJ, fun _ hJ => hJ, fun _ hJ => hJ⟩
  have hcap := (hr.trans hunlimit).cap gk
  obtain ⟨hgate, hnext⟩ := sweepGate_steps (r.1.zremRatelimited gk) gk now serverNow
  have hstart := (hr.trans hunlimit).trans hgate.sweeping
  generalize hg : (r.1.zremRatelimited gk).groups gk = g at *
  generalize sweepGate (r.1.zremRatelimited gk) gk now serverNow = a at *
  obtain ⟨s, n, tokens, passed⟩ := a
  simp only at hnext hstart ⊢
  split
  · rename_i hpassed
    exact sweepPromote_sweeping hc (hnext hpassed) hstart hcap tokens now serverNow
  · exact hstart

theorem promoteRateLimited_qsteps (s : Queue) (now serverNow : Int) :
    QSteps s (some (.promoteRateLimited now serverNow)) (none, s)
      (none, (promoteRateLimited s now serverNow).1) := by
  have hfold (gks : List GroupKey) (r : Queue × Nat)
      (hr : Sweeping s (some (.promoteRateLimited now serverNow)) none s r.1) :
      Sweeping s (some (.promoteRateLimited now serverNow)) none s
        (gks.foldl (sweepGroup now serverNow) r).1 := by
    induction gks generalizing r with
    | nil => exact hr
    | cons gk gks ih => exact ih _ (sweepGroup_sweeping ⟨now, serverNow, rfl⟩ hr gk)
  exact (hfold _ (s, 0) (.refl s)).steps

end

end GlideMq
