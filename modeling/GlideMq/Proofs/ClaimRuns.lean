import GlideMq.Model.Calls
import GlideMq.Proofs.SettleRuns

/-!
# Claims as runs of steps

List pops, `moveToActive`, `deferActive` and the two reclaims, step by step.
-/

namespace GlideMq

open Queue Redis

/-! ## Later queues -/

section

variable {s t : Queue}

theorem stream_takeFrom (s : Queue) (J : JobId) (src : Source) : (s.takeFrom J src).stream = s.stream := by
  cases src <;> rfl

theorem stream_doSlot (s : Queue) (J : JobId) (slot : Slot) : (s.doSlot J slot).stream = s.stream := by
  cases slot with
  | leave => rfl
  | retain => rfl
  | release hint =>
    unfold doSlot afterRelease
    simp only
    split <;> rfl
  | closeHole => exact closeOrderingHole_stream s J
  | undo =>
    unfold doSlot undoClaim
    simp only
    split <;> rfl
  | take gk => rfl

theorem extends_ackDel (s : Queue) (group : Group) (e : Option Nat) :
    s.stream.Extends (ackDel s group e).stream := by
  cases e with
  | none => exact .refl _
  | some n =>
    have hxack : s.stream.Extends (s.stream.xack group n) := .of_eq rfl rfl
    exact hxack.trans (Stream.extends_xdel _ n)

theorem extends_detach (m : Move) (s : Queue) : s.stream.Extends (m.detach s).stream := by
  have hfold (l : List Source) (q : Queue) :
      (l.foldl (·.takeFrom m.job) q).stream = q.stream := by
    induction l generalizing q with
    | nil => rfl
    | cons src l ih => exact (ih _).trans (stream_takeFrom q m.job src)
  unfold Move.detach
  rw [hfold]
  exact extends_ackDel s m.group m.entry

theorem extends_put (s : Queue) (J : JobId) (p : Place) : s.stream.Extends (s.put J p).stream := by
  cases p with
  | stream r => exact Stream.extends_xadd _ _
  | _ => exact .refl _

theorem extends_of_life (ht : t.life = s.life) : s.stream.Extends t.stream :=
  .of_eq (entries_of_life ht) (lastId_of_life ht)

theorem extends_apply (m : Move) (s : Queue) : s.stream.Extends (m.apply s).stream := by
  unfold Move.apply
  rw [stream_doSlot]
  exact (extends_detach m s).trans (extends_put (m.detach s) m.job m.place)

theorem extends_withdraw (m : Move) (s : Queue) : s.stream.Extends (m.withdraw s).stream := by
  unfold Move.withdraw
  rw [stream_doSlot]
  exact extends_detach m s

theorem QStep.extends {s₀ : Queue} {c : Option Call} {x y : Cfg} (hstep : QStep s₀ c x y) :
    x.2.stream.Extends y.2.stream := by
  cases hstep with
  | quiet ht => exact extends_of_life ht
  | @move h h' s t m why hh ht => exact (extends_apply m s).trans (extends_of_life ht)
  | skip gk => simp only [skipToNext_stream]; exact .refl _
  | tombstone hq hj => simp only [consumeOrderedTombstone_stream]; exact .refl _
  | ack hst he => exact extends_ackDel _ _ _
  | @take s t m why ht => exact (extends_withdraw m s).trans (extends_of_life ht)
  | @empty s J src hsrc => simp only [stream_takeFrom]; exact .refl _
  | unend k hst => cases k <;> exact .refl _
  | sweep k hmem => cases k <;> exact .refl _
  | @drain h s t J hc ht =>
    have hstream : ((closeOrderingHole s J).unlinkJob J).stream = s.stream :=
      closeOrderingHole_stream s J
    have hext := extends_of_life ht
    rwa [hstream] at hext
  | clearList k hgone => cases k <;> exact .refl _
  | @pop s k J hlast hreach hc => cases k <;> exact .refl _
  | @reserve h s k J hlast => cases k <;> exact .refl _
  | @retry h s t J timestamp hc hmem hj ht =>
    refine Stream.Extends.trans ?_ (extends_of_life ht)
    unfold retryFailedJob issueSeq
    simp only
    split <;> exact .refl _
  | @create s t J n hc hn hfree ht =>
    refine Stream.Extends.trans ?_ (extends_of_life ht)
    unfold Queue.create issueSeq
    cases n.key <;> exact .refl _
  | @enqueue s J p st hst hp => exact extends_put s J p
  | _ => exact .refl _

theorem QSteps.extends {s₀ : Queue} {c : Option Call} {x y : Cfg} (hsteps : QSteps s₀ c x y) :
    x.2.stream.Extends y.2.stream := by
  induction hsteps with
  | refl => exact .refl _
  | tail _ hstep ih => exact ih.trans hstep.extends

end

/-! ## Pops -/

section

variable {s₀ : Queue} {c : Option Call} {h : Option JobId} {s t u : Queue}

theorem drop_takeClaims (s : Queue) (k : ListKey) (l : List JobId) :
    (s.takeClaims l).drop k = (s.drop k).takeClaims l := by
  cases k <;> rfl

theorem list_takeClaims (s : Queue) (k : ListKey) (l : List JobId) :
    (s.takeClaims l).list k = s.list k := by
  cases k <;> rfl

theorem takeClaims_takeClaims (s : Queue) (l l' : List JobId) :
    (s.takeClaims l).takeClaims l' = s.takeClaims (l ++ l') := by
  unfold takeClaims
  rw [List.append_assoc]

theorem takeClaims_nil (s : Queue) : s.takeClaims [] = s := by
  unfold takeClaims
  rw [List.append_nil]

theorem rpopMany_qsteps (k : ListKey) (n : Nat) (s : Queue) (results : List JobId) :
    QSteps s₀ c (h, s.takeClaims results)
      (h, (rpopMany k n s results).1.takeClaims (rpopMany k n s results).2) := by
  -- The pops of a worker, as if each job were handed over when it is popped.
  induction n generalizing s results with
  | zero => exact .refl
  | succ n ih =>
    rw [rpopMany]
    split
    · exact .refl
    · rename_i J hlast
      refine .head ?_ (ih (s.drop k) (results ++ [J]))
      rw [← takeClaims_takeClaims, ← drop_takeClaims]
      exact .reserve (by rwa [list_takeClaims])

theorem popBoth_qsteps (s : Queue) (count : Nat) :
    QSteps s₀ c (h, s) (h, (popBoth s count).1.takeClaims (popBoth s count).2) := by
  have hpop (k : ListKey) (q : Queue) : QSteps s₀ c (h, q.takeClaims [])
      (h, (rpopMany k count q []).1.takeClaims (rpopMany k count q []).2) :=
    rpopMany_qsteps k count q []
  simp only [takeClaims_nil] at hpop
  have hpriority := hpop .priority s
  unfold popBoth
  split
  · rename_i t heq
    rw [heq] at hpriority
    simp only [takeClaims_nil] at hpriority
    exact hpriority.trans (hpop .lifo t)
  · exact hpriority

theorem reserve_qsteps {r : Queue × List JobId} (hr : QSteps s₀ c (h, s) (h, r.1.takeClaims r.2)) :
    QSteps s₀ c (h, s) (h, (reserve r).1) := by
  unfold reserve
  split
  · rename_i hnil
    rwa [hnil, takeClaims_nil] at hr
  · exact QSteps.quiet hr rfl

theorem popLists_qsteps (s : Queue) (count : Nat) :
    QSteps s₀ c (h, s) (h, (popLists s count).1) := by
  unfold popLists
  split
  · exact .refl
  · exact popBoth_qsteps s count

theorem popListsReserve_qsteps (s : Queue) (count : Nat) :
    QSteps s₀ c (h, s) (h, (popListsReserve s count).1) := by
  unfold popListsReserve
  split
  · exact .refl
  · exact reserve_qsteps (popBoth_qsteps s count)

theorem rpopAndReserve_qsteps (s : Queue) (k : ListKey) (group : Group) (count : Nat) :
    QSteps s₀ c (h, s) (h, (rpopAndReserve s k group count).1) := by
  have hpop (n : Nat) : QSteps s₀ c (h, s.takeClaims [])
      (h, (rpopMany k n s []).1.takeClaims (rpopMany k n s []).2) := rpopMany_qsteps k n s []
  simp only [takeClaims_nil] at hpop
  unfold rpopAndReserve
  simp only
  split
  · exact .refl
  split
  · split
    · exact .refl
    · exact reserve_qsteps (hpop _)
  · exact reserve_qsteps (hpop count)

/-! ## `moveToActive` -/

theorem stateOf_park_ne (s : Queue) (gk : GroupKey) (J : JobId) (x : Int) :
    (park s gk J x).stateOf J ≠ some .waiting := by
  unfold park
  simp [stateOf_setState]

theorem stateOf_expireJob {J : JobId} (s : Queue) (now serverNow : Int) (k : Option GroupKey)
    (n : Option Nat) (g : Option GroupKey) :
    (expireJob s J now serverNow (s.stateOf J) k n g).stateOf J = some .failed := by
  unfold expireJob
  split
  · assumption
  simp only
  generalize hv : markOrderingDone _ J k n = v
  have hcore : v.core = (endFailed s J now "expired" now).core := by
    rw [← hv, core_markOrderingDone, core_advanceRepeatAfterComplete]
    rfl
  have hfailed : v.stateOf J = some .failed := by
    rw [stateOf_of_core hcore, stateOf_endFailed, if_pos rfl]
  rw [stateOf_of_core (core_recordFailed _ _ _)]
  split
  · refine (releaseGroupSlotAndPromote_steps v J now serverNow g).failed ?_
    rwa [stateOf_afterRelease]
  · refine (closeOrderingHoleAndPromote_steps v J now serverNow).failed ?_
    rwa [closeOrderingHole_stateOf]

theorem stateOf_activate_ne (s : Queue) (J : JobId) (now : Int) (l : Bool) :
    (activate s J now l).stateOf J ≠ some .waiting := by
  rw [stateOf_of_core (core_activate s J now l), stateOf_setState, if_pos rfl]
  simp

theorem claimInGroup_ne_waiting (s : Queue) (a : MoveArgs) (gk : GroupKey) :
    (claimInGroup s a gk).1.stateOf a.jobId ≠ some .waiting := by
  have hoversize (q : Queue) : (closeOrderingHoleAndPromote (failOversize q a.jobId gk a.timestamp)
      a.jobId a.timestamp a.serverNow).stateOf a.jobId ≠ some .waiting := by
    have hsteps := closeOrderingHoleAndPromote_steps (failOversize q a.jobId gk a.timestamp) a.jobId
      a.timestamp a.serverNow
    have hfailed := hsteps.failed (J := a.jobId) (by
      rw [closeOrderingHole_stateOf, stateOf_of_core (core_failOversize _ _ _ _), stateOf_endFailed,
        if_pos rfl])
    rw [hfailed]
    simp
  unfold claimInGroup
  simp only
  generalize (if 0 < (s.job a.jobId).orderingSeq then _ else _) = r
  split
  · exact stateOf_park_ne _ _ _ _
  split
  · exact stateOf_park_ne _ _ _ _
  split
  · exact hoversize _
  split
  · exact stateOf_park_ne _ _ _ _
  · exact stateOf_activate_ne _ _ _ _

theorem moveToActiveClaim_ne_waiting (s : Queue) (a : MoveArgs)
    (hover : (∃ fields, (moveToActiveClaim s a).2 = .active fields) ∨
      (moveToActiveClaim s a).2.releasesListClaim) :
    (moveToActiveClaim s a).1.stateOf a.jobId ≠ some .waiting := by
  revert hover
  unfold moveToActiveClaim
  simp only
  split
  · rename_i hj
    simp [Queue.stateOf, hj]
  · rename_i job hj
    have hstate : s.stateOf a.jobId = job.state := by simp [Queue.stateOf, hj]
    split
    · rename_i hst
      intro _
      rw [stateOf_ackDel, hstate]
      intro hw
      simp [hw, isActivatable] at hst
    split
    · simp [ActivationResult.releasesListClaim]
    split
    · simp [ActivationResult.releasesListClaim]
    split
    · intro _
      simp only [stateOf_ackDel]
      rw [← hstate, stateOf_expireJob]
      simp
    split
    · simp [ActivationResult.releasesListClaim]
    split
    · exact fun _ => claimInGroup_ne_waiting s a _
    · exact fun _ => stateOf_activate_ne s a.jobId _ _

theorem moveToActive_qsteps (s : Queue) (a : MoveArgs) :
    QSteps s (some (.moveToActive a)) (none, s) (none, (moveToActive s a).1) := by
  have hM : ClaimMode.Of ⟨(Call.moveToActive a).ownEntry s, False, False⟩ s
      (some (.moveToActive a)) a.jobId := ⟨fun hown => hown _ rfl, False.elim⟩
  have hclaim : QSteps s (some (.moveToActive a)) (none, s) (none, (moveToActiveClaim s a).1) := by
    rcases moveToActiveClaim_cases (M := ⟨(Call.moveToActive a).ownEntry s, False, False⟩) (s := s)
      (a := a) id with heq | ⟨hj, hst, heq⟩ | hclaim
    · rw [heq]
    · rw [heq]
      refine .single (.ack (J := a.jobId) (Or.inr (Or.inl ?_)) fun hown => hown _ rfl)
      intro hw
      simp [hw, isActivatable] at hst
    · exact hclaim.qsteps hM
  have hover := moveToActiveClaim_ne_waiting s a
  unfold moveToActive
  simp only
  generalize moveToActiveClaim s a = r at *
  obtain ⟨t, result⟩ := r
  simp only at hclaim hover ⊢
  split
  · split
    · have hquiet := QSteps.quiet (t := t.saddListActiveIds [a.jobId]) hclaim rfl
      exact hquiet.tail (.unclaim (Or.inr (Or.inl (hover (Or.inl ⟨_, rfl⟩)))))
    · split
      · rename_i hreleases
        have hquiet := QSteps.quiet (t := t.sremListActiveIds a.jobId) hclaim rfl
        exact hquiet.tail (.unclaim (Or.inr (Or.inl (hover (Or.inr hreleases)))))
      · exact hclaim
  · exact hclaim

/-! ## `deferActive` -/

theorem life_decrListActive (s : Queue) (J : JobId) : (decrListActive s J).life = s.life := by
  unfold decrListActive
  simp only
  split <;> rfl

theorem life_settleListClaim (ht : t.life = s.life) (J : JobId) (e : Option Nat) :
    (settleListClaim t J e).life = (if e = none then s.dropClaim J else s).life := by
  unfold settleListClaim
  split
  · exact life_takeFrom ((life_decrListActive t J).trans ht) J .claim
  · exact ht

theorem requeue_place (s : Queue) (a : DeferArgs) :
    ∃ p : Place, p.queued s a.jobId ∧ requeue s a = s.put a.jobId p := by
  unfold requeue
  simp only
  split
  · split
    · rename_i hlifo
      exact ⟨.lifo, hlifo, rfl⟩
    split
    · exact ⟨.priorityBack, trivial, rfl⟩
    · exact ⟨.stream none, trivial, rfl⟩
  · exact ⟨.stream none, trivial, rfl⟩

theorem deferActive_qsteps (s : Queue) (a : DeferArgs) :
    QSteps s (some (.deferActive a)) (none, s) (none, (deferActive s a).1) := by
  unfold deferActive
  simp only
  generalize hu : settleListClaim _ _ _ = u
  have hlife : u.life = (if a.entryId = none then (ackDel s a.group a.entryId).dropClaim a.jobId
      else ackDel s a.group a.entryId).life := by
    rw [← hu]
    exact life_settleListClaim rfl a.jobId a.entryId
  have hjobs : (if a.entryId = none then (ackDel s a.group a.entryId).dropClaim a.jobId
      else ackDel s a.group a.entryId).jobs = s.jobs := by
    cases a.entryId <;> rfl
  split
  · rename_i hj
    have hst : s.stateOf a.jobId = none := by
      have := (jobs_none_of_life hlife a.jobId).mp hj
      rw [hjobs] at this
      simp [Queue.stateOf, this]
    rw [← hu]
    have hack : QStep s (some (.deferActive a)) (none, s) (none, ackDel s a.group a.entryId) :=
      .ack (J := a.jobId) (Or.inr (Or.inl (by simp [hst]))) fun hown => hown _ rfl
    exact .head hack (settleListClaim_qsteps (Or.inr (by simp [hst])))
  · rename_i hj
    have hsj : s.jobs a.jobId ≠ none := by
      rw [← hjobs]
      exact fun hn => hj ((jobs_none_of_life hlife a.jobId).mpr hn)
    obtain ⟨p, hp, hput⟩ := requeue_place u a
    have hlifo : (u.job a.jobId).lifo = (s.job a.jobId).lifo := by
      rw [job_of_life Job.lifo (fun _ => rfl) hlife]
      unfold Queue.job
      rw [hjobs]
    have hps : p.queued s a.jobId := by
      cases p with
      | lifo => exact hlifo.symm.trans hp
      | _ => exact hp
    have hwhy : Why s (some (.deferActive a)) s
        { job := a.jobId, group := a.group, entry := a.entryId,
          sources := if a.entryId = none then [.claim] else [], place := p, state := .waiting,
          slot := if a.undoGroupClaim then .undo else .leave } := .defer rfl rfl hsj hps
    refine .move hwhy ?_
    have hdetach : u.life = (Move.detach
        { job := a.jobId
          group := a.group
          entry := a.entryId
          sources := if a.entryId = none then [.claim] else []
          place := p
          state := .waiting
          slot := if a.undoGroupClaim then .undo else .leave } s).life := by
      rw [hlife]
      unfold Move.detach
      simp only
      cases a.entryId <;> rfl
    have hstate := life_setState (life_put hdetach a.jobId p) a.jobId .waiting
    rw [hput]
    have hslot := life_doSlot hstate a.jobId (if a.undoGroupClaim then Slot.undo else .leave)
    refine Eq.trans ?_ hslot
    split <;> rfl

/-! ## Expiry -/

theorem expireJob_qsteps {J : JobId} {now serverNow : Int} {m : Move}
    (hst : s.stateOf J ≠ some .failed) (why : Why s₀ c s m) (hm : m.job = J)
    (hslot : m.slot = endSlot (s.stateOf J))
    (ht : (((m.detach s).put J m.place).setState J m.state).life =
      (endFailed t J now "expired" now).life) :
    QSteps s₀ c (h, s) (h, expireJob t J now serverNow (s.stateOf J) none none none) := by
  -- A job past its time is failed. Its slot goes as its state says.
  unfold expireJob
  rw [if_neg hst]
  simp only
  generalize hv : markOrderingDone _ J none none = v
  have hlife : v.life = (((m.detach s).put J m.place).setState J m.state).life := by
    rw [ht]
    refine life_of_core ?_
    rw [← hv, core_markOrderingDone, core_advanceRepeatAfterComplete]
    rfl
  subst hm
  have happly : (v.doSlot m.job (endSlot (s.stateOf m.job))).life = (m.apply s).life := by
    unfold Move.apply
    rw [hslot]
    exact life_doSlot hlife _ _
  refine QSteps.quiet ?_ (life_of_core (core_recordFailed _ _ _))
  unfold endSlot at happly
  split
  · rename_i hactive
    rw [if_pos hactive] at happly
    exact (QSteps.move why happly).trans (release_qsteps v m.job now serverNow none)
  · rename_i hactive
    rw [if_neg hactive] at happly
    exact (QSteps.move why happly).trans (closeHole_qsteps v m.job now serverNow)

theorem jobs_ne_none_of_expired {J : JobId} {now : Int} (hexp : isExpired (s.job J) now) :
    s.jobs J ≠ none := by
  intro hn
  simp [Queue.job, hn, isExpired] at hexp

/-! ## Stalled jobs -/

theorem checkExpired_cases (s : Queue) (J : JobId) (now serverNow : Int) :
    (¬ isExpired (s.job J) now ∧ checkExpired s J now serverNow = (s, false)) ∨
      isExpired (s.job J) now ∧ checkExpired s J now serverNow =
        (expireJob s J now serverNow (s.stateOf J) none none none, true) := by
  unfold checkExpired
  split
  · rename_i hexp
    exact Or.inr ⟨hexp, rfl⟩
  · rename_i hexp
    exact Or.inl ⟨hexp, rfl⟩

theorem expireStalled_qsteps {J : JobId} {now : Int} (hc : Reclaims s₀ c J)
    (hexp : isExpired (s.job J) now) (serverNow : Int) :
    QSteps s₀ c (h, s) (h, expireJob s J now serverNow (s.stateOf J) none none none) := by
  -- A stalled job past its time. Afterwards it has failed.
  by_cases hst : s.stateOf J = some .failed
  · unfold expireJob
    rw [if_pos hst]
  have hwhy : Why s₀ c s
      { job := J, place := .failed now, state := .failed, slot := endSlot (s.stateOf J) } :=
    .expireStalled hc (jobs_ne_none_of_expired hexp) hst
  exact expireJob_qsteps hst hwhy rfl rfl (life_endFailed s J now "expired" now).symm

theorem applyStalledLogic_qsteps {J : JobId} {n : Nat} {timestamp serverNow : Int}
    (hc : Reclaims s₀ c J) (hj : s.jobs J ≠ none)
    (hout : (applyStalledLogic s J n timestamp serverNow).2 = true) :
    QSteps s₀ c (h, s) (h, (applyStalledLogic s J n timestamp serverNow).1) ∧
      (applyStalledLogic s J n timestamp serverNow).1.stateOf J = some .failed := by
  revert hout
  unfold applyStalledLogic
  simp only
  generalize hu : s.hset J (fun j => { j with stalledCount := j.stalledCount + 1 }) = u
  have hlife : u.life = s.life := by
    rw [← hu]
    exact life_hset_self hj fun _ => rfl
  split
  · intro _
    generalize hv : markOrderingDone _ J none none = v
    have hv : v.life = ((s.zaddFailed J timestamp).setState J .failed).life := by
      have hcore : v.core = (endFailed u J timestamp stalledReason timestamp).core := by
        rw [← hv, core_markOrderingDone, core_advanceRepeatAfterComplete]
        rfl
      exact ((life_of_core hcore).trans (life_endFailed _ _ _ _ _)).trans
        (life_setState (life_put hlife J (.failed timestamp)) J .failed)
    have hwhy : Why s₀ c s
        { job := J, place := .failed timestamp, state := .failed, slot := .release none } :=
      .stallOut hc hj
    have hmove := life_afterRelease hv J none
    have hsteps := releaseGroupSlotAndPromote_steps v J timestamp serverNow none
    refine ⟨QSteps.quiet ((QSteps.move hwhy hmove).trans hsteps.qsteps) rfl, ?_⟩
    have hfailed : (afterRelease v J none).stateOf J = some .failed := by
      rw [stateOf_afterRelease, stateOf_of_life hv, stateOf_setState, if_pos rfl]
    exact (stateOf_of_core (core_recordFailed _ _ _) J).trans (hsteps.failed hfailed)
  · simp

theorem applyStalledLogic_stays {J : JobId} {n : Nat} {timestamp serverNow : Int}
    (hj : s.jobs J ≠ none) (hout : (applyStalledLogic s J n timestamp serverNow).2 = false) :
    (applyStalledLogic s J n timestamp serverNow).1.life = s.life := by
  revert hout
  unfold applyStalledLogic
  simp only
  split
  · simp
  · exact fun _ => life_hset_self hj fun _ => rfl

theorem applyStalledLogic_redispatches {J : JobId} {n : Nat} {timestamp serverNow : Int}
    (hout : (applyStalledLogic s J n timestamp serverNow).2 = false) :
    (s.job J).stalledCount < n ∧ (applyStalledLogic s J n timestamp serverNow).1 =
      s.hset J fun j => { j with stalledCount := j.stalledCount + 1 } := by
  revert hout
  unfold applyStalledLogic
  simp only
  split
  · simp
  · rename_i hcount
    intro _
    refine ⟨?_, rfl⟩
    simp only [Queue.job, hset_jobs, Function.update_self, Option.getD_some] at hcount ⊢
    omega

theorem reclaimEntry_qsteps {a : ReclaimArgs} {e : Entry JobEntry}
    (hc : Reclaims s₀ c e.val.jobId)
    (hready : s.handsOut a e.val.jobId → Redispatches s₀ c e.val.jobId) (he : EntryOf s e.val.jobId (some e.id)) :
    QSteps s₀ c (h, s) (h, reclaimEntry a s e) := by
  have hdrop {t : Queue} (hsteps : QSteps s₀ c (h, s) (h, t))
      (hst : t.stateOf e.val.jobId ≠ some .waiting) :
      QSteps s₀ c (h, s) (h, ackDel t a.group (some e.id)) :=
    hsteps.tail (.ack (J := e.val.jobId) (Or.inr (Or.inl hst)) fun _ => he.extends hsteps.extends)
  unfold reclaimEntry
  simp only
  split
  · rename_i hj
    exact hdrop .refl (by simp [Queue.stateOf, hj])
  rename_i hj
  rcases checkExpired_cases s e.val.jobId a.timestamp a.serverNow with ⟨hexp, heq⟩ | ⟨hexp, heq⟩
  · rw [heq]
    simp only
    split
    · exact .refl
    rename_i hidle
    cases hout : (applyStalledLogic s e.val.jobId a.maxStalledCount a.timestamp a.serverNow).2 with
    | true =>
      obtain ⟨hsteps, hfailed⟩ := applyStalledLogic_qsteps (h := h) hc hj hout
      generalize applyStalledLogic s e.val.jobId a.maxStalledCount a.timestamp a.serverNow = r at *
      obtain ⟨t, b⟩ := r
      simp only at hout hsteps hfailed ⊢
      subst hout
      exact hdrop hsteps (by simp [hfailed])
    | false =>
      have hlife := applyStalledLogic_stays hj hout
      have hhanded : s.handsOut a e.val.jobId :=
        ⟨hj, hexp, fun t ht => not_lt.mp fun hlt => hidle ⟨t, ht, hlt⟩,
          (applyStalledLogic_redispatches hout).1⟩
      generalize applyStalledLogic s e.val.jobId a.maxStalledCount a.timestamp a.serverNow = r at *
      obtain ⟨t, b⟩ := r
      simp only at hout hlife ⊢
      subst hout
      have hwhy : Why s₀ c s
          { job := e.val.jobId, group := a.group, entry := some e.id, place := .stream none,
            state := .waiting } := .redispatch (hready hhanded) hj trivial he
      refine .move hwhy ?_
      have hack := life_ackDel hlife a.group (some e.id)
      refine Eq.trans ?_ (life_setState (life_put hack e.val.jobId (.stream none)) e.val.jobId .waiting)
      unfold setRedispatched setState
      simp only
      have hset (f : Job → Job) : (((ackDel t a.group (some e.id)).hset e.val.jobId f).xaddJob
          e.val.jobId) = ((ackDel t a.group (some e.id)).put e.val.jobId (.stream none)).hset
            e.val.jobId f := rfl
      rw [hset, life_hset, life_hset]
      rfl
  · rw [heq]
    simp only
    exact hdrop (expireStalled_qsteps hc hexp a.serverNow) (by rw [stateOf_expireJob]; simp)

/-! What the stall check reads stays as it is, until the job is handed out. -/

theorem handsOut_of_frame {a : ReclaimArgs} {J : JobId} (ht : t.frame = s.frame)
    (hJ : t.handsOut a J) : s.handsOut a J := by
  obtain ⟨hj, hready⟩ := hJ
  refine ⟨fun hn => hj ((frame_jobs_none ht J).mpr hn), ?_⟩
  rwa [frame_job a.handsOut (fun _ => rfl) ht J] at hready

theorem handsOut_of_jobs {a : ReclaimArgs} {J : JobId} (ht : t.jobs J = s.jobs J)
    (hJ : t.handsOut a J) : s.handsOut a J := by
  unfold Queue.handsOut Queue.job at *
  rwa [ht] at hJ

theorem handsOut_of_stalled {a : ReclaimArgs} {J K : JobId} (hK : s.jobs K ≠ none)
    (hJ : (s.hset K fun j => { j with stalledCount := j.stalledCount + 1 }).handsOut a J) :
    s.handsOut a J := by
  by_cases hJK : J = K
  · subst hJK
    obtain ⟨-, hexp, hidle, hcount⟩ := hJ
    simp only [Queue.job, hset_jobs, Function.update_self, Option.getD_some] at hexp hidle hcount
    exact ⟨hK, hexp, hidle, Nat.lt_of_succ_lt hcount⟩
  · refine handsOut_of_jobs ?_ hJ
    simp [hJK]

theorem handsOut_of_applyStalledLogic {a : ReclaimArgs} {J K : JobId} (hK : s.jobs K ≠ none)
    (hJ : (applyStalledLogic s K a.maxStalledCount a.timestamp a.serverNow).1.handsOut a J) :
    s.handsOut a J := by
  refine handsOut_of_stalled hK ?_
  unfold applyStalledLogic at hJ
  simp only at hJ
  have hu : (s.hset K fun j => { j with stalledCount := j.stalledCount + 1 }).jobs K ≠ none := by simp
  generalize s.hset K _ = u at *
  split at hJ
  · refine handsOut_of_frame ?_ hJ
    rw [frame_recordFailed, frame_releaseGroupSlotAndPromote, frame_markOrderingDone,
      frame_advanceRepeatAfterComplete]
    exact (frame_setFailed (by simpa using hu) _ _).trans (frame_zaddFailed _ _ _)
  · exact hJ

theorem handsOut_of_reclaimEntry {a : ReclaimArgs} {e : Entry JobEntry} {J : JobId}
    (hJ : (reclaimEntry a s e).handsOut a J) : s.handsOut a J := by
  unfold reclaimEntry at hJ
  simp only at hJ
  split at hJ
  · exact hJ
  rename_i hj
  rcases checkExpired_cases s e.val.jobId a.timestamp a.serverNow with ⟨hexp, heq⟩ | ⟨-, heq⟩
  · rw [heq] at hJ
    simp only at hJ
    split at hJ
    · exact hJ
    rename_i hidle
    have hstalled := handsOut_of_applyStalledLogic (a := a) (J := J) hj
    cases hout : (applyStalledLogic s e.val.jobId a.maxStalledCount a.timestamp a.serverNow).2 with
    | true =>
      generalize applyStalledLogic s e.val.jobId a.maxStalledCount a.timestamp a.serverNow = r at *
      obtain ⟨t, b⟩ := r
      simp only at hout hstalled hJ
      subst hout
      exact hstalled hJ
    | false =>
      have hcount := (applyStalledLogic_redispatches hout).1
      generalize applyStalledLogic s e.val.jobId a.maxStalledCount a.timestamp a.serverNow = r at *
      obtain ⟨t, b⟩ := r
      simp only at hout hstalled hJ
      subst hout
      by_cases hK : J = e.val.jobId
      · rw [hK]
        exact ⟨hj, hexp, fun t ht => not_lt.mp fun hlt => hidle ⟨t, ht, hlt⟩, hcount⟩
      · refine hstalled (handsOut_of_jobs ?_ hJ)
        simp [setRedispatched, hK]
  · rw [heq] at hJ
    exact handsOut_of_frame (frame_expireJob hj _ _ _ _ _ _) hJ

theorem reclaimStalled_qsteps (s : Queue) (a : ReclaimArgs) (visited : Nat → Bool) :
    QSteps s (some (.reclaimStalled a visited)) (none, s) (none, reclaimStalled s a visited) := by
  unfold reclaimStalled
  split
  · exact .refl
  simp only
  have hfold (l : List (Entry JobEntry)) (hl : ∀ e ∈ l, e ∈ s.stream.claimable a.group visited)
      (t : Queue) (ht : QSteps s (some (.reclaimStalled a visited)) (none, s) (none, t))
      (hready : ∀ J, t.handsOut a J → s.handsOut a J) :
      QSteps s (some (.reclaimStalled a visited)) (none, s) (none, l.foldl (reclaimEntry a) t) := by
    induction l generalizing t with
    | nil => exact ht
    | cons e l ih =>
      have he := hl e List.mem_cons_self
      have hc : Reclaims s (some (.reclaimStalled a visited)) e.val.jobId :=
        Or.inl ⟨a, visited, rfl, e, he, rfl⟩
      refine ih (fun e' he' => hl e' (List.mem_cons_of_mem _ he')) _ (ht.trans ?_)
        fun J hJ => hready J (handsOut_of_reclaimEntry hJ)
      refine reclaimEntry_qsteps hc (fun hhanded => ⟨hc, ?_⟩) ?_
      · intro a' visited' heq
        cases heq
        exact hready _ hhanded
      · exact (entryOf_mem (Stream.mem_of_mem_claimable he)).extends ht.extends
  exact hfold _ (fun _ he => he) _ (.of_life rfl) fun _ hJ => hJ

/-! ## Stalled list claims -/

theorem requeueStalled_place (t : Queue) (J : JobId) (lifo : Bool) (priority : Nat)
    (hlifo : lifo = (s.job J).lifo) :
    ∃ p : Place, p.queued s J ∧
      requeueStalled t J lifo priority = (setRedispatched t J).put J p := by
  unfold requeueStalled
  simp only
  split
  · rename_i h
    exact ⟨.lifo, hlifo.symm.trans h, rfl⟩
  split
  · exact ⟨.priorityFront, trivial, rfl⟩
  · exact ⟨.stream none, trivial, rfl⟩

theorem put_hset (s : Queue) (J : JobId) (f : Job → Job) (p : Place) :
    (s.hset J f).put J p = (s.put J p).hset J f := by
  cases p <;> rfl

theorem reclaimListJob_qsteps {a : ReclaimListArgs} {J : JobId} (hc : Redispatches s₀ c J) :
    QSteps s₀ c (h, s) (h, reclaimListJob a s J) := by
  unfold reclaimListJob
  simp only
  split
  · rename_i hidle
    have hj : s.jobs J ≠ none := by
      intro hn
      simp [Queue.job, hn] at hidle
    generalize hu : s.hset J (fun j => { j with lastActive := some a.timestamp }) = u
    have hlife : u.life = s.life := by
      rw [← hu]
      exact life_hset_self hj fun _ => rfl
    have huj : u.jobs J ≠ none := fun hn => hj ((jobs_none_of_life hlife J).mp hn)
    refine (QSteps.of_life hlife).trans ?_
    rcases checkExpired_cases u J a.timestamp a.serverNow with ⟨-, heq⟩ | ⟨hexp, heq⟩
    · rw [heq]
      simp only
      cases hout : (applyStalledLogic u J a.maxStalledCount a.timestamp a.serverNow).2 with
      | true =>
        obtain ⟨hsteps, -⟩ := applyStalledLogic_qsteps (h := h) hc.1 huj hout
        generalize applyStalledLogic u J a.maxStalledCount a.timestamp a.serverNow = r at *
        obtain ⟨t, b⟩ := r
        simp only at hout hsteps ⊢
        subst hout
        exact QSteps.quiet hsteps (life_decrListActive t J)
      | false =>
        have hstays := applyStalledLogic_stays huj hout
        generalize applyStalledLogic u J a.maxStalledCount a.timestamp a.serverNow = r at *
        obtain ⟨t, b⟩ := r
        simp only at hout hstays ⊢
        subst hout
        have hlifo : (s.job J).lifo = (u.job J).lifo := (job_of_life Job.lifo (fun _ => rfl) hlife J).symm
        obtain ⟨p, hp, hput⟩ := requeueStalled_place (s := u) t J (s.job J).lifo (s.job J).priority hlifo
        simp only [hput]
        have hwhy : Why s₀ c u { job := J, place := p, state := .waiting } :=
          .redispatch hc huj hp (entryOf_none u J)
        refine QSteps.quiet (.move hwhy ?_) (life_decrListActive _ J)
        refine Eq.trans ?_ (life_setState (life_put hstays J p) J .waiting)
        unfold setRedispatched setState
        rw [put_hset, life_hset, life_hset]
        rfl
    · rw [heq]
      simp only
      exact QSteps.quiet (expireStalled_qsteps hc.1 hexp a.serverNow) (life_decrListActive _ J)
  · exact .refl

theorem reclaimStalledListJobs_qsteps (s : Queue) (a : ReclaimListArgs) (scan : Scan) :
    QSteps s (some (.reclaimStalledListJobs a scan)) (none, s)
      (none, reclaimStalledListJobs s a scan) := by
  unfold reclaimStalledListJobs
  split
  · exact .refl
  simp only
  have hfold (l : List JobId) (hl : ∀ J ∈ l, J ∈ (activeListIds s scan).2.1) (t : Queue) :
      QSteps s (some (.reclaimStalledListJobs a scan)) (none, t)
        (none, l.foldl (reclaimListJob a) t) := by
    induction l generalizing t with
    | nil => exact .refl
    | cons J l ih =>
      refine Relation.ReflTransGen.trans ?_ (ih (fun K hK => hl K (List.mem_cons_of_mem _ hK)) _)
      refine reclaimListJob_qsteps ⟨Or.inr ⟨a, scan, rfl, hl J List.mem_cons_self⟩, ?_⟩
      intro a' visited hne
      cases hne
  refine Relation.ReflTransGen.trans (QSteps.of_life ?_) (hfold _ (fun _ hJ => hJ) _)
  unfold activeListIds
  simp only
  repeat' split
  all_goals rfl

end

end GlideMq
