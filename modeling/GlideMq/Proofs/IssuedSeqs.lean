import GlideMq.Proofs.JobSteps

/-!
# Issued sequences

A job of an ordering key has one of the sequences that its key has issued so far.
-/

namespace GlideMq

open Queue Redis

/-- What places a job in the order of a key. -/
def Job.order (j : Job) : Option GroupKey × Option GroupKey × Nat :=
  (j.groupKey, j.orderingKey, j.orderingSeq)

/-- No job has a sequence that its key has not issued yet. -/
structure SeqsIssued (s : Queue) : Prop where
  noKey : ∀ J, (s.job J).orderingKey = none
  issued : ∀ J k, (s.job J).groupKey = some k → (s.job J).orderingSeq ≤ s.ordering k

section

variable {s₀ s t : Queue} {c : Option Call} {J K : JobId}

theorem order_of_jobs_none (h : s.jobs J = none) : (s.job J).order = (none, none, 0) := by
  unfold Queue.job
  rw [h]
  rfl

theorem order_of_life (h : t.life = s.life) (J : JobId) : (t.job J).order = (s.job J).order :=
  job_of_life Job.order (fun _ => rfl) h J

theorem ordering_of_life (h : t.life = s.life) : t.ordering = s.ordering :=
  key_of_life Queue.ordering (fun _ => rfl) h

theorem order_of_frame (h : t.frame = s.frame) (J : JobId) : (t.job J).order = (s.job J).order :=
  frame_job Job.order (fun _ => rfl) h J

theorem ordering_of_frame (h : t.frame = s.frame) : t.ordering = s.ordering := by
  have := congrArg Queue.ordering h
  exact this

theorem SeqsIssued.keep (h : SeqsIssued s)
    (hjobs : ∀ J, (t.job J).order = (s.job J).order ∨ (t.job J).order = (none, none, 0))
    (hord : ∀ k, s.ordering k ≤ t.ordering k) : SeqsIssued t := by
  -- Jobs keep their places or are gone, and no key takes a sequence back.
  constructor
  · intro J
    rcases hjobs J with hJ | hJ
    · have hkey : (t.job J).orderingKey = (s.job J).orderingKey :=
        congrArg (fun o : Option GroupKey × Option GroupKey × Nat => o.2.1) hJ
      rw [hkey]
      exact h.noKey J
    · exact congrArg (fun o : Option GroupKey × Option GroupKey × Nat => o.2.1) hJ
  · intro J k hk
    rcases hjobs J with hJ | hJ
    · simp only [Job.order, Prod.mk.injEq] at hJ
      rw [hJ.2.2]
      exact (h.issued J k (hJ.1 ▸ hk)).trans (hord k)
    · simp only [Job.order, Prod.mk.injEq] at hJ
      rw [hJ.1] at hk
      cases hk

theorem SeqsIssued.of_life (h : SeqsIssued s) (ht : t.life = s.life) : SeqsIssued t :=
  h.keep (fun J => .inl (order_of_life ht J)) fun k => (congrFun (ordering_of_life ht) k).ge

theorem SeqsIssued.of_frame (h : SeqsIssued s) (ht : t.frame = s.frame) : SeqsIssued t :=
  h.keep (fun J => .inl (order_of_frame ht J)) fun k => (congrFun (ordering_of_frame ht) k).ge

theorem SeqsIssued.of_jobs (h : SeqsIssued s) (hj : t.jobs = s.jobs) (ho : t.ordering = s.ordering) :
    SeqsIssued t := by
  have hjob (J : JobId) : t.job J = s.job J := by
    unfold Queue.job
    rw [hj]
  exact h.keep (fun J => .inl (by rw [hjob])) fun k => (congrFun ho k).ge

theorem SeqsIssued.unlink (h : SeqsIssued s) (J : JobId) : SeqsIssued (s.unlinkJob J) := by
  refine h.keep (fun K => ?_) fun k => le_rfl
  by_cases hK : K = J
  · subst hK
    refine .inr (order_of_jobs_none ?_)
    simp
  · refine .inl ?_
    simp [Queue.job, hK]

theorem SeqsIssued.hset (h : SeqsIssued s) (J : JobId) {f : Job → Job}
    (hf : ∀ j, (f j).order = j.order) : SeqsIssued (s.hset J f) := by
  refine h.keep (fun K => .inl ?_) fun k => le_rfl
  unfold Queue.job
  simp only [hset_jobs, Function.update_apply]
  split
  · rename_i hK
    subst hK
    exact hf _
  · rfl

theorem detach_ordering (s : Queue) (m : Move) : (m.detach s).ordering = s.ordering := by
  have hack : (ackDel s m.group m.entry).ordering = s.ordering := by
    cases m.entry <;> rfl
  have hfold (l : List Source) (q : Queue) :
      (l.foldl (·.takeFrom m.job) q).ordering = q.ordering := by
    induction l generalizing q with
    | nil => rfl
    | cons src l ih =>
      refine (ih _).trans ?_
      cases src <;> rfl
  exact (hfold _ _).trans hack

theorem put_ordering (s : Queue) (J : JobId) (p : Place) : (s.put J p).ordering = s.ordering := by
  cases p <;> rfl

theorem SeqsIssued.doSlot (h : SeqsIssued s) (J : JobId) (slot : Slot) :
    SeqsIssued (s.doSlot J slot) := by
  cases slot with
  | leave => exact h
  | retain => exact h.hset J (f := fun j => { j with retainedSlot := true }) fun _ => rfl
  | release hint =>
    change SeqsIssued (afterRelease s J hint)
    unfold afterRelease
    split
    · exact h
    · exact h.of_frame (frame_releaseSlot s J _)
  | closeHole => exact h.of_frame (frame_closeOrderingHole s J)
  | undo =>
    change SeqsIssued (undoClaim s J)
    unfold undoClaim
    simp only
    split
    · exact h
    · exact h.of_jobs rfl rfl
  | take gk => exact h.of_jobs rfl rfl

theorem SeqsIssued.apply (h : SeqsIssued s) (m : Move) : SeqsIssued (m.apply s) := by
  have hput : SeqsIssued ((m.detach s).put m.job m.place) :=
    h.of_jobs ((put_jobs _ _ _).trans (detach_jobs s m))
      ((put_ordering _ _ _).trans (detach_ordering s m))
  have hstate : SeqsIssued (((m.detach s).put m.job m.place).setState m.job m.state) :=
    hput.hset m.job fun _ => rfl
  exact hstate.doSlot m.job m.slot

theorem SeqsIssued.issue (h : SeqsIssued s) {key : Option GroupKey}
    (hkey : (t.job J).orderingKey = none)
    (hgroup : ∀ k, (t.job J).groupKey = some k →
      (t.job J).orderingSeq ≤ (issueSeq s key).1.ordering k)
    (hjobs : ∀ K, K ≠ J → t.jobs K = s.jobs K) (hord : t.ordering = (issueSeq s key).1.ordering) :
    SeqsIssued t := by
  have hmono (k : GroupKey) : s.ordering k ≤ (issueSeq s key).1.ordering k := by
    unfold issueSeq
    cases key with
    | none => exact le_rfl
    | some k' =>
      simp only [incrOrdering_ordering, Function.update_apply]
      split
      · rename_i heq
        rw [heq]
        omega
      · exact le_rfl
  have hjob {K : JobId} (hK : K ≠ J) : t.job K = s.job K := by
    unfold Queue.job
    rw [hjobs K hK]
  constructor
  · intro K
    by_cases hK : K = J
    · rw [hK]
      exact hkey
    · rw [hjob hK]
      exact h.noKey K
  · intro K k hk
    rw [hord]
    by_cases hK : K = J
    · subst hK
      exact hgroup k hk
    · rw [hjob hK] at hk ⊢
      exact (h.issued K k hk).trans (hmono k)

theorem SeqsIssued.create (h : SeqsIssued s) {n : NewJob} (hn : n.Ok) :
    SeqsIssued (s.create J n) := by
  have hjob : (s.create J n).job J = n.fields (issueSeq s n.key).2 (s.job J) := by
    unfold Queue.create issueSeq Queue.job
    cases n.key <;> simp
  have hlife := hn.job (issueSeq s n.key).2 (s.job J)
  rw [← hjob] at hlife
  have hgk : ((s.create J n).job J).groupKey =
      if n.key.isSome then n.key else (s.job J).groupKey := congrArg Job.groupKey hlife
  have hseq : ((s.create J n).job J).orderingSeq =
      if n.key.isSome then (issueSeq s n.key).2 else (s.job J).orderingSeq :=
    congrArg Job.orderingSeq hlife
  have hok : ((s.create J n).job J).life.orderingKey = (s.job J).life.orderingKey := by rw [hlife]
  refine @SeqsIssued.issue _ _ _ h n.key (hok.trans (h.noKey J)) ?_ (fun K hK => ?_) ?_
  · intro k hk
    rw [hgk] at hk
    rw [hseq]
    unfold issueSeq
    cases hkey : n.key with
    | none =>
      rw [hkey] at hk
      exact h.issued J k hk
    | some k' =>
      rw [hkey] at hk
      obtain rfl : k' = k := by simpa using hk
      simp
  · exact create_jobs_of_ne hK n
  · unfold Queue.create
    cases n.key <;> rfl

theorem SeqsIssued.retry (h : SeqsIssued s) (J : JobId) (timestamp : Int) :
    SeqsIssued (retryFailedJob s J timestamp) := by
  generalize hkey : (if 0 < (s.job J).orderingSeq then (s.job J).groupKey else none) = key
  have hretry : (if 0 < (s.job J).orderingSeq then (s.job J).orderingKey <|> (s.job J).groupKey
      else none) = key := by
    rw [h.noKey J, ← hkey]
    rfl
  have horder : ((retryFailedJob s J timestamp).job J).order =
      ((s.job J).groupKey, (s.job J).orderingKey,
        if key.isSome then (issueSeq s key).2 else (s.job J).orderingSeq) := by
    unfold retryFailedJob
    simp only [hretry]
    unfold issueSeq
    cases key <;> simp [Queue.job, Job.order]
  simp only [Job.order, Prod.mk.injEq] at horder
  obtain ⟨hgk, hok, hseq⟩ := horder
  refine @SeqsIssued.issue _ _ _ h key (hok.trans (h.noKey J)) ?_
    (fun K hK => retryFailedJob_jobs_of_ne hK timestamp) ?_
  · intro k hk
    rw [hgk] at hk
    rw [hseq]
    unfold issueSeq
    cases key with
    | none => exact h.issued J k hk
    | some k' =>
      split at hkey
      · obtain rfl : k = k' := by simpa [hk] using hkey
        simp
      · cases hkey
  · unfold retryFailedJob
    simp only [hretry]
    unfold issueSeq
    cases key <;> rfl

theorem SeqsIssued.withdraw (h : SeqsIssued s) (m : Move) : SeqsIssued (m.withdraw s) :=
  (h.of_jobs (detach_jobs s m) (detach_ordering s m)).doSlot m.job m.slot

/-! ## Runs -/

theorem QStep.seqs_issued {x y : Cfg} (hstep : QStep s₀ c x y) (h : SeqsIssued x.2) :
    SeqsIssued y.2 := by
  cases hstep with
  | quiet ht => exact h.of_life ht
  | @move _ _ s t m why hh ht => exact (h.apply m).of_life ht
  | limit gk x => exact h.of_jobs rfl rfl
  | unlimit gk => exact h.of_jobs rfl rfl
  | @skip _ s gk => exact h.of_frame (frame_skipToNext s gk _)
  | @tombstone _ s gk J x hq hj =>
    exact (h.of_jobs rfl rfl).of_frame (frame_consumeOrderedTombstone (s.zremGroupq gk J) gk _ J x)
  | unpark hq hst => exact h.of_jobs rfl rfl
  | repark hq x => exact h.of_jobs rfl rfl
  | @ack _ s J group e hst he => cases e <;> exact h.of_jobs rfl rfl
  | unclaim hst => exact h.of_jobs rfl rfl
  | @flag _ s J timestamp serverNow group hc hj =>
    exact h.hset J (f := fun j => { j with revoked := true }) fun _ => rfl
  | unsuspend hst => exact h.of_jobs rfl rfl
  | unschedule hc hst => exact h.of_jobs rfl rfl
  | @take s t m why ht => exact (h.withdraw m).of_life ht
  | @empty s J src hsrc => exact h.of_jobs (takeFrom_jobs s J src) (by cases src <;> rfl)
  | @unend _ s J t hst => cases t <;> exact h.of_jobs rfl rfl
  | @delete s J => exact h.unlink J
  | @sweep _ s J t hmem => cases t <;> exact (h.unlink J).of_jobs rfl rfl
  | @drain _ s t J hc ht => exact ((h.of_frame (frame_closeOrderingHole s J)).unlink J).of_life ht
  | clearScheduled hgone => exact h.of_jobs rfl rfl
  | clearList k hgone => cases k <;> exact h.of_jobs rfl rfl
  | @pop s k J hlast hreach hc => cases k <;> exact h.of_jobs rfl rfl
  | discard hreach hc hst => exact h
  | @reserve _ s k J hlast => cases k <;> exact h.of_jobs rfl rfl
  | @retry _ s t J timestamp hc hmem hj ht =>
    have hrem : SeqsIssued (s.zremFailed J) := h.of_jobs rfl rfl
    exact (hrem.retry J timestamp).of_life ht
  | @create s t J n hc hn hfree ht => exact (h.create hn).of_life ht
  | record hc hJ => exact h.of_jobs rfl rfl
  | @enqueue s J p st hst hp hc => exact h.of_jobs (put_jobs s J p) (put_ordering s J p)

theorem QSteps.seqs_issued {x y : Cfg} (hsteps : QSteps s₀ c x y) (h : SeqsIssued x.2) :
    SeqsIssued y.2 := by
  induction hsteps with
  | refl => exact h
  | tail _ hstep ih => exact hstep.seqs_issued ih

end

theorem sysStep_seqs_issued {S : Sys} (h : ∀ q, SeqsIssued (S q)) (call : SysCall) :
    ∀ q, SeqsIssued (sysStep S call q) :=
  fun q => (sysStep_qsteps S call q).seqs_issued (h q)

theorem seqs_issued_run (calls : List SysCall) :
    ∀ q, SeqsIssued (Machine.run sysStep emptySys calls q) := by
  have hempty : ∀ q, SeqsIssued (emptySys q) := fun _ => ⟨fun _ => rfl, fun _ _ hk => by cases hk⟩
  exact @Machine.invariant_all _ _ sysStep (fun S => ∀ q, SeqsIssued (S q))
    (fun _ call h => sysStep_seqs_issued h call) _ calls hempty

end GlideMq
